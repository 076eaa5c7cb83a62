import LuaSandbox.Heka.FrameRoundTrip
import LuaSandbox.Heka.StreamNeed

/-!
# The messages of a file

The loop of `lsb_heka_cat`: messages are found in an input buffer that is filled
from the file, and those that the matcher accepts are output.
-/

namespace LuaSandbox
namespace Cli

open Foundation Util
open Heka (needed fillBuffer Pending headerLength)

/-!
## The loop
-/

inductive CatStop where
  /-- a reallocation failed -/
  | exitFailure
  | outOfFuel
  deriving DecidableEq

/-- What the matcher says, how a message is output, and the outcome of a
reallocation. -/
structure CatOptions where
  evaluate : Memory -> HekaMessage -> Bool
  /-- the count needs no output -/
  ofn : Option (Memory -> HekaMessage -> List UInt8)
  realloc : InputBuffer -> Option Nat

/-- The variables of the loop, with what is left of the file. -/
structure Cat where
  mem : Memory
  msg : HekaMessage
  ib : InputBuffer
  file : List UInt8
  stdout : List UInt8
  pcnt : Nat
  mcnt : Nat
  bytesRead : Nat

/-- The header and the message. -/
def outputHeka (mem : Memory) (msg : HekaMessage) : List UInt8 :=
  Heka.lsbWriteHekaHeader msg.raw.len ++ (msg.raw.contents mem).getD []

namespace CatOptions

variable (o : CatOptions)

def output (mem : Memory) (msg : HekaMessage) : List UInt8 :=
  match o.ofn with
  | some ofn => ofn mem msg
  | none => []

/-- Fill the buffer from the file. -/
def readFile (x : Cat) : Except CatStop Cat :=
  match lsbExpandInputBuffer x.mem (o.realloc x.ib) x.ib
      (needed x.mem x.ib) with
  | (some _, _, _) => Except.error CatStop.exitFailure
  | (none, mem, ib) =>
      let nread := (x.file.take (ib.size - ib.readpos)).length
      let filled := fillBuffer mem ib x.file
      Except.ok { x with
        mem := filled.1
        ib := filled.2
        file := x.file.drop nread
        bytesRead := nread }

/-- One turn of the loop. -/
def turn (x : Cat) : Except CatStop Cat :=
  let r := lsbFindHekaMessage x.mem x.msg x.ib true
  let x := { x with msg := r.m, ib := r.ib }
  if r.found then
    if o.evaluate x.mem x.msg then
      Except.ok { x with
        stdout := x.stdout ++ o.output x.mem x.msg
        mcnt := x.mcnt + 1
        pcnt := x.pcnt + 1 }
    else
      Except.ok { x with pcnt := x.pcnt + 1 }
  else
    o.readFile x

/-- The loop that does not follow the file. -/
def loop : Nat -> Cat -> Except CatStop Cat
  | 0, _ => Except.error CatStop.outOfFuel
  | fuel + 1, x =>
      match o.turn x with
      | Except.error e => Except.error e
      | Except.ok x =>
          if 0 < x.bytesRead then loop fuel x else Except.ok x

end CatOptions

/-- The variables in front of the loop. -/
def startCat (mem : Memory) (ib : InputBuffer) (file : List UInt8) : Cat where
  mem := mem
  msg := lsbClearHekaMessage
  ib := ib
  file := file
  stdout := []
  pcnt := 0
  mcnt := 0
  bytesRead := 0

/-!
## What a turn does
-/

/-- The messages that were processed, with the memory they stood in. -/
abbrev Seen : Type := List (Memory × HekaMessage)

def CatOptions.matched (o : CatOptions) (seen : Seen) : Seen :=
  seen.filter (fun e => o.evaluate e.1 e.2)

/-- The loop has taken the bytes `done` from the file and has processed the
messages in `seen`: they are the frames of these bytes up to what is still in
the buffer. -/
structure Processing (o : CatOptions) (max : Nat) (done : List UInt8)
    (seen : Seen) (x : Cat) : Prop where
  resumable : Resumable x.mem x.ib
  maxsize : x.ib.maxMessageSize = max
  size : lsbMaxHdrSize <= x.ib.size
  drained : exists fs k,
    (frames true max).drain done =
      Drained.append ⟨fs, k, []⟩
        ((frames true max).drain (x.ib.unread x.mem)) ∧
    seen.map (fun e => e.2.contents e.1) =
      fs.map (fun f => framed true (payload f))
  pcnt : x.pcnt = seen.length
  mcnt : x.mcnt = (o.matched seen).length
  stdout : x.stdout = (o.matched seen).flatMap (fun e => o.output e.1 e.2)

section

variable {o : CatOptions} {max : Nat} {done : List UInt8} {seen : Seen}
variable {x : Cat}

theorem matched_append (o : CatOptions) (seen : Seen) (mem : Memory)
    (msg : HekaMessage) :
    o.matched (seen ++ [(mem, msg)]) =
      o.matched seen ++
        if o.evaluate mem msg then [(mem, msg)] else [] := by
  unfold CatOptions.matched
  rw [List.filter_append, List.filter_singleton]
  cases o.evaluate mem msg <;> rfl

/-- A message is found: it is the next frame. -/
theorem Processing.found (h : Processing o max done seen x) {r : Finding}
    (hr : lsbFindHekaMessage x.mem x.msg x.ib true = r)
    (hfound : r.found = true) :
    exists x', o.turn x = Except.ok x' ∧ x'.file = x.file ∧
      x'.bytesRead = x.bytesRead ∧
      (x'.ib.unread x'.mem).length < (x.ib.unread x.mem).length ∧
      Processing o max done (seen ++ [(x.mem, r.m)]) x' := by
  have hscans := lsbFindHekaMessage_scans x.mem x.msg x.ib true h.resumable
  rw [hr, h.maxsize] at hscans
  have hsome : ((frames true max).seek
      (x.ib.unread x.mem)).found.isSome = true := by
    rw [← hscans.found]
    exact hfound
  rcases Option.isSome_iff_exists.mp hsome with ⟨f, hf⟩
  rcases h.drained with ⟨fs, k, hdrain, hseen⟩
  have hmsglen : r.ib.msglen = 0 := by
    rw [hscans.msglen, hfound]
    rfl
  have hmaxsize : r.ib.maxMessageSize = max := by
    rw [← h.maxsize]
    exact congrArg (· - lsbMaxHdrSize) hscans.maxsize
  have hframes : exists fs' k',
      (frames true max).drain done =
        Drained.append ⟨fs', k', []⟩
          ((frames true max).drain (r.ib.unread x.mem)) ∧
      (seen ++ [(x.mem, r.m)]).map (fun e => e.2.contents e.1) =
        fs'.map (fun f => framed true (payload f)) := by
    refine ⟨fs ++ [f], k + ((frames true max).seek
      (x.ib.unread x.mem)).skipped, ?_, ?_⟩
    · rw [hdrain, (frames true max).drain_of_some hf, hscans.unread,
        ← Drained.append_assoc]
      rfl
    · rw [List.map_append, List.map_append, hseen, List.map_singleton,
        List.map_singleton, hscans.message f hf]
  have hlength : (r.ib.unread x.mem).length <
      (x.ib.unread x.mem).length := by
    rw [hscans.unread]
    exact (frames true max).seek_rest_lt hf
  unfold CatOptions.turn
  rw [hr]
  dsimp only
  rw [if_pos hfound]
  by_cases hmatch : o.evaluate x.mem r.m = true
  · rw [if_pos hmatch]
    refine ⟨_, rfl, rfl, rfl, hlength, ?_⟩
    constructor
    · exact resumable_zero hmsglen
    · exact hmaxsize
    · exact hscans.size ▸ h.size
    · exact hframes
    · rw [List.length_append, ← h.pcnt]
      rfl
    · rw [matched_append, if_pos hmatch, List.length_append, ← h.mcnt]
      rfl
    · rw [matched_append, if_pos hmatch, List.flatMap_append, ← h.stdout,
        List.flatMap_singleton]
  · rw [if_neg hmatch]
    refine ⟨_, rfl, rfl, rfl, hlength, ?_⟩
    constructor
    · exact resumable_zero hmsglen
    · exact hmaxsize
    · exact hscans.size ▸ h.size
    · exact hframes
    · rw [List.length_append, ← h.pcnt]
      rfl
    · rw [matched_append, if_neg hmatch, List.append_nil]
      exact h.mcnt
    · rw [matched_append, if_neg hmatch, List.append_nil]
      exact h.stdout

/-- The buffer does not shrink. -/
theorem lsbExpandInputBuffer_size_le {mem mem' : Memory}
    {alloc : Option Nat} {b b' : InputBuffer} {len : Nat}
    (h : lsbExpandInputBuffer mem alloc b len = (none, mem', b')) :
    b.size <= b'.size := by
  have hsize : (shiftData mem b).2.size = b.size := by
    unfold shiftData
    split
    · split <;> rfl
    · rfl
  generalize hshift : shiftData mem b = r at hsize
  rcases r with ⟨mem₁, b₁⟩
  rcases lsbExpandInputBuffer_cases mem alloc b len hshift with
    ⟨hexpand, _⟩ | ⟨e, hexpand, _⟩ |
      ⟨tmp, b₂, _, hroom, _, hexpand, hreallocated⟩
  · rw [hexpand] at h
    cases h
    exact Nat.le_of_eq hsize.symm
  · rw [hexpand] at h
    cases h
  · rw [hexpand] at h
    cases h
    have hfits := hreallocated.fits
    rw [hreallocated.readpos] at hfits
    change b₁.size = b.size at hsize
    omega

/-- No message is found: bytes of the file are added, which were all that is
left if they are none, where the buffer has a free byte. -/
theorem Processing.read (h : Processing o max done seen x) {r : Finding}
    (hr : lsbFindHekaMessage x.mem x.msg x.ib true = r)
    (hfound : r.found = false) :
    (o.turn x = Except.error CatStop.exitFailure ∧
      exists e mem ib, lsbExpandInputBuffer x.mem (o.realloc r.ib) r.ib
        (needed x.mem r.ib) = (some e, mem, ib)) ∨
    exists x' chunk mem ib, o.turn x = Except.ok x' ∧
      x.file = chunk ++ x'.file ∧ x'.bytesRead = chunk.length ∧
      lsbExpandInputBuffer x.mem (o.realloc r.ib) r.ib
        (needed x.mem r.ib) = (none, mem, ib) ∧
      chunk = x.file.take (ib.size - ib.readpos) ∧
      (x'.ib.unread x'.mem).length <=
        (x.ib.unread x.mem).length + chunk.length ∧
      Processing o max (done ++ chunk) seen x' := by
  have hscans := lsbFindHekaMessage_scans x.mem x.msg x.ib true h.resumable
  rw [hr, h.maxsize] at hscans
  have hnone : ((frames true max).seek (x.ib.unread x.mem)).found = none := by
    apply Option.not_isSome_iff_eq_none.mp
    rw [← hscans.found, hfound]
    exact Bool.false_ne_true
  have hmsglen : r.ib.msglen = announced max (r.ib.unread x.mem) := by
    have hlength := hscans.msglen
    rw [hfound, if_neg Bool.false_ne_true] at hlength
    rw [hlength, hscans.unread, h.maxsize]
  have hmaxsize : r.ib.maxMessageSize = max := by
    rw [← h.maxsize]
    exact congrArg (· - lsbMaxHdrSize) hscans.maxsize
  unfold CatOptions.turn
  rw [hr]
  dsimp only
  rw [if_neg (by rw [hfound]; exact Bool.false_ne_true)]
  unfold CatOptions.readFile
  dsimp only
  generalize hexpand : lsbExpandInputBuffer x.mem (o.realloc r.ib) r.ib
    (needed x.mem r.ib) = expanded
  rcases expanded with ⟨e, mem, ib⟩
  cases e with
  | some e => exact Or.inl ⟨rfl, e, mem, ib, rfl⟩
  | none =>
      right
      dsimp only
      rcases lsbExpandInputBuffer_keeps hexpand with
        ⟨hunread, hmsglen', hmaxsize'⟩
      generalize hchunk : x.file.take (ib.size - ib.readpos) = chunk
      have hsplit : x.file = chunk ++ x.file.drop chunk.length := by
        rw [← hchunk, List.length_take]
        by_cases hle : ib.size - ib.readpos <= x.file.length
        · rw [Nat.min_eq_left hle, List.take_append_drop]
        · rw [Nat.min_eq_right (by omega), List.drop_length, List.append_nil,
            List.take_of_length_le (by omega)]
      have hfilled : (fillBuffer mem ib x.file).2.unread
          (fillBuffer mem ib x.file).1 = r.ib.unread x.mem ++ chunk := by
        rw [← hunread, ← hchunk]
        exact unread_addData _
      refine ⟨_, chunk, mem, ib, rfl, hsplit, rfl, rfl, hchunk.symm, ?_, ?_⟩
      · change ((fillBuffer mem ib x.file).2.unread
          (fillBuffer mem ib x.file).1).length <= _
        have hrest := congrArg List.length
          ((frames true max).seek_conserves (x.ib.unread x.mem))
        rw [List.length_append, List.length_append] at hrest
        rw [hfilled, List.length_append, hscans.unread]
        omega
      · rcases h.drained with ⟨fs, k, hdrain, hseen⟩
        constructor
        · have hresumable : Resumable x.mem r.ib := by
            intro _
            rw [hmaxsize]
            exact hmsglen
          exact hresumable.append hfilled hmsglen' hmaxsize'
        · rw [← hmaxsize]
          exact congrArg (· - lsbMaxHdrSize) hmaxsize'
        · have hle := lsbExpandInputBuffer_size_le hexpand
          rw [hscans.size] at hle
          exact Nat.le_trans h.size hle
        · rw [(frames true max).drain_of_none hnone] at hdrain
          refine ⟨fs, k + ((frames true max).seek
            (x.ib.unread x.mem)).skipped, ?_, hseen⟩
          rw [(frames true max).drain_append, hdrain]
          change Drained.append _ _ = Drained.append _
            ((frames true max).drain ((fillBuffer mem ib x.file).2.unread
              (fillBuffer mem ib x.file).1))
          rw [hfilled, hscans.unread]
          unfold Drained.append
          rw [List.append_nil]
        · exact h.pcnt
        · exact h.mcnt
        · exact h.stdout

/-- Where no message is announced, less than a header is waited with. -/
theorem undecided_short {decode : Bool} {xs : List UInt8}
    (h : frameVerdict decode max xs = Verdict.undecided)
    (hzero : announced max xs = 0) : xs.length < lsbMaxHdrSize := by
  have hsize : headerSize xs <= lsbMaxHdrSize := by
    have hbyte := (Memory.ofList xs 1).toNat_lt
    unfold headerSize lsbMaxHdrSize lsbHdrFrameSize
    omega
  unfold frameVerdict at h
  dsimp only at h
  rw [hzero] at h
  split at h
  · rename_i hempty
    rw [hempty]
    decide
  split at h
  · cases h
  split at h
  · omega
  · rw [if_pos rfl] at h
    cases h

/-- What the buffer is left with by a search that finds nothing. -/
theorem Processing.waiting (h : Processing o max done seen x) {r : Finding}
    (hr : lsbFindHekaMessage x.mem x.msg x.ib true = r)
    (hfound : r.found = false) :
    ((frames true max).drain done).pending = r.ib.unread x.mem ∧
      (r.ib.msglen ≠ 0 -> Pending x.mem r.ib) ∧
      (r.ib.msglen = 0 ->
        (r.ib.unread x.mem).length < lsbMaxHdrSize) ∧
      lsbMaxHdrSize <= r.ib.size := by
  have hscans := lsbFindHekaMessage_scans x.mem x.msg x.ib true h.resumable
  rw [hr] at hscans
  have hpending := Heka.pending_of_scans hscans hfound
  have hmsglen := hscans.msglen
  rw [hfound, if_neg Bool.false_ne_true] at hmsglen
  rw [h.maxsize] at hscans hmsglen
  have hnone : ((frames true max).seek (x.ib.unread x.mem)).found = none := by
    apply Option.not_isSome_iff_eq_none.mp
    rw [← hscans.found, hfound]
    exact Bool.false_ne_true
  refine ⟨?_, hpending, ?_, hscans.size ▸ h.size⟩
  · rcases h.drained with ⟨fs, k, hdrain, _⟩
    rw [hdrain, (frames true max).drain_of_none hnone, hscans.unread]
    rfl
  · intro hzero
    rw [hzero] at hmsglen
    rw [hscans.unread]
    exact undecided_short ((frames true max).seek_rest_undecided hnone)
      hmsglen.symm

/-- There is room for at least a byte, unless a reallocation fails or a header
of 128 bytes or more is waited with. -/
theorem Processing.room (h : Processing o max done seen x) {r : Finding}
    (hr : lsbFindHekaMessage x.mem x.msg x.ib true = r)
    (hfound : r.found = false)
    (hrealloc : forall b, o.realloc b ≠ none)
    (hheader : announced max ((frames true max).drain done).pending ≠ 0 ->
      headerSize ((frames true max).drain done).pending < 128 + 3) :
    exists mem ib, lsbExpandInputBuffer x.mem (o.realloc r.ib) r.ib
      (needed x.mem r.ib) = (none, mem, ib) ∧ ib.readpos < ib.size := by
  rcases h.waiting hr hfound with ⟨hunread, hpending, hshort, hsize⟩
  rcases Option.ne_none_iff_exists'.mp (hrealloc r.ib) with ⟨tmp, htmp⟩
  have hscan := r.ib.scanpos_le
  have hread := r.ib.readpos_le
  have hmaxsize := r.ib.maxsize_le
  have hsize' := r.ib.size_le
  have hlength := r.ib.length_unread x.mem
  rw [hunread] at hheader
  rw [htmp]
  by_cases hzero : r.ib.msglen = 0
  · have hlt := hshort hzero
    have hneeded : needed x.mem r.ib =
        r.ib.scanpos + r.ib.size - r.ib.readpos := by
      unfold needed
      rw [if_neg (not_not_intro hzero)]
    have hshifted : (shiftData x.mem r.ib).2.readpos =
        r.ib.readpos - r.ib.scanpos ∧
          (shiftData x.mem r.ib).2.size = r.ib.size := by
      unfold shiftData
      split
      · split
        · exact ⟨by dsimp only; omega, rfl⟩
        · exact ⟨rfl, rfl⟩
      · exact ⟨by dsimp only; omega, rfl⟩
    generalize hshift : shiftData x.mem r.ib = shifted at hshifted
    rcases shifted with ⟨mem, ib⟩
    dsimp only at hshifted
    refine ⟨mem, ib, ?_, by omega⟩
    unfold lsbExpandInputBuffer
    rw [hshift, hneeded]
    dsimp only
    rw [dif_neg (by omega)]
  · have hwait := hpending hzero
    have hheader' : headerLength x.mem r.ib < 128 := by
      have hne : announced max (r.ib.unread x.mem) ≠ 0 := by
        have hmax : r.ib.maxMessageSize = max := by
          have hscans := lsbFindHekaMessage_scans x.mem x.msg x.ib true
            h.resumable
          rw [hr] at hscans
          rw [← h.maxsize]
          exact congrArg (· - lsbMaxHdrSize) hscans.maxsize
        rw [← hmax, ← hwait.announced]
        exact hzero
      have hlt := hheader hne
      rw [hwait.headerSize.1] at hlt
      omega
    have hneeded := Heka.needed_eq hwait hheader'
    have htotal := hwait.total_le
    have hwaits := hwait.short
    have hheld := hwait.headerSize.2
    have hexpands : (lsbExpandInputBuffer x.mem (some tmp) r.ib
        (needed x.mem r.ib)).1 = none :=
      hwait.expands hneeded
    generalize hexpand : lsbExpandInputBuffer x.mem (some tmp) r.ib
      (needed x.mem r.ib) = expanded at hexpands
    rcases expanded with ⟨e, mem, ib⟩
    cases hexpands
    refine ⟨mem, ib, rfl, ?_⟩
    have hfits := lsbExpandInputBuffer_fits hexpand
    have hread' := ib.readpos_le
    have hsize'' := ib.size_le
    have hmaxsize' := ib.maxsize_le
    omega

end

/-!
## Runs
-/

/-- The scanner waits for no message whose header has 128 bytes or more. -/
def ShortHeaders (max : Nat) (file : List UInt8) : Prop :=
  forall done, done <+: file ->
    announced max ((frames true max).drain done).pending ≠ 0 ->
      headerSize ((frames true max).drain done).pending < 128 + 3

/-- The messages in `seen` are the frames of the bytes `done`. -/
def SeenAll (max : Nat) (done : List UInt8) (seen : Seen) : Prop :=
  seen.map (fun e => e.2.contents e.1) =
    ((frames true max).drain done).frames.map
      (fun f => framed true (payload f))

section

variable {o : CatOptions} {max : Nat} {done file : List UInt8} {seen : Seen}
variable {x : Cat}

theorem Processing.seenAll (h : Processing o max done seen x) {r : Finding}
    (hr : lsbFindHekaMessage x.mem x.msg x.ib true = r)
    (hfound : r.found = false) : SeenAll max done seen := by
  have hscans := lsbFindHekaMessage_scans x.mem x.msg x.ib true h.resumable
  rw [hr, h.maxsize] at hscans
  have hnone : ((frames true max).seek (x.ib.unread x.mem)).found = none := by
    apply Option.not_isSome_iff_eq_none.mp
    rw [← hscans.found, hfound]
    exact Bool.false_ne_true
  rcases h.drained with ⟨fs, k, hdrain, hseen⟩
  unfold SeenAll
  rw [hdrain, (frames true max).drain_of_none hnone, hseen]
  unfold Drained.append
  rw [List.append_nil]

theorem loop_ok (fuel : Nat) {x x' : Cat} (h : o.turn x = Except.ok x') :
    o.loop (fuel + 1) x =
      if 0 < x'.bytesRead then o.loop fuel x' else Except.ok x' := by
  rw [CatOptions.loop, h]

theorem loop_error (fuel : Nat) {x : Cat} {e : CatStop}
    (h : o.turn x = Except.error e) :
    o.loop (fuel + 1) x = Except.error e := by
  rw [CatOptions.loop, h]

/-- The loop ends behind a search that finds nothing and a read that returns
nothing. -/
theorem loop_spec (fuel : Nat) (h : Processing o max done seen x)
    (hfile : file = done ++ x.file)
    (hread : 0 < x.bytesRead ∨ x.ib.unread x.mem = [])
    (hfuel : 2 * x.file.length + (x.ib.unread x.mem).length < fuel) :
    (o.loop fuel x = Except.error CatStop.exitFailure ∧
      ¬ ((forall b, o.realloc b ≠ none) ∧ ShortHeaders max file)) ∨
    exists x' done' seen', o.loop fuel x = Except.ok x' ∧
      file = done' ++ x'.file ∧ Processing o max done' seen' x' ∧
      SeenAll max done' seen' ∧
      ((forall b, o.realloc b ≠ none) ∧ ShortHeaders max file ->
        x'.file = []) := by
  induction fuel generalizing done seen x with
  | zero => omega
  | succ fuel ih =>
      generalize hr : lsbFindHekaMessage x.mem x.msg x.ib true = r
      cases hfound : r.found with
      | true =>
          rcases h.found hr hfound with
            ⟨x', hturn, hfile', hbytes, hlength, hnext⟩
          have hpos : 0 < x'.bytesRead := by
            rw [hbytes]
            apply hread.resolve_right
            intro hempty
            rw [hempty] at hlength
            exact absurd hlength (Nat.not_lt_zero _)
          have hloop : o.loop (fuel + 1) x = o.loop fuel x' := by
            rw [loop_ok fuel hturn, if_pos hpos]
          rw [hloop]
          apply ih hnext
          · rw [hfile']
            exact hfile
          · exact Or.inl hpos
          · rw [hfile']
            omega
      | false =>
          have hall := h.seenAll hr hfound
          have hroom : (forall b, o.realloc b ≠ none) ∧
              ShortHeaders max file -> exists mem ib,
                lsbExpandInputBuffer x.mem (o.realloc r.ib) r.ib
                  (needed x.mem r.ib) = (none, mem, ib) ∧
                ib.readpos < ib.size := by
            rintro ⟨hrealloc, hshort⟩
            apply h.room hr hfound hrealloc
            apply hshort done
            rw [hfile]
            exact List.prefix_append _ _
          rcases h.read hr hfound with
            ⟨hturn, e, mem, ib, hexpand⟩ |
              ⟨x', chunk, mem, ib, hturn, hsplit, hbytes, hexpand, hchunk,
                hlength, hnext⟩
          · left
            constructor
            · exact loop_error fuel hturn
            · intro hfills
              rcases hroom hfills with ⟨mem', ib', hexpand', _⟩
              rw [hexpand] at hexpand'
              cases hexpand'
          · have hfile' : file = (done ++ chunk) ++ x'.file := by
              rw [hfile, hsplit, List.append_assoc]
            rw [loop_ok fuel hturn]
            by_cases hpos : 0 < x'.bytesRead
            · rw [if_pos hpos]
              apply ih hnext hfile' (Or.inl hpos)
              have hfilelength := congrArg List.length hsplit
              rw [List.length_append] at hfilelength
              omega
            · rw [if_neg hpos]
              have hempty : chunk = [] := by
                apply List.eq_nil_of_length_eq_zero
                omega
              right
              rw [hempty, List.append_nil] at hnext hfile'
              refine ⟨x', done, seen, rfl, hfile', hnext, hall, ?_⟩
              -- a byte would fit, so there is none
              intro hfills
              rcases hroom hfills with ⟨mem', ib', hexpand', hlt⟩
              rw [hexpand] at hexpand'
              cases hexpand'
              rw [hempty, List.nil_append] at hsplit
              rw [hempty, hsplit] at hchunk
              have htake := congrArg List.length hchunk
              rw [List.length_take, List.length_nil] at htake
              apply List.eq_nil_of_length_eq_zero
              omega

/-- In front of the loop nothing is read or processed. -/
theorem processing_start {alloc : Option Nat} {ib : InputBuffer}
    {hmax : max + lsbMaxHdrSize <= 2 ^ 63}
    (hinit : lsbInitInputBuffer alloc max hmax = some ib) (mem : Memory)
    (file : List UInt8) :
    Processing o max [] [] (startCat mem ib file) ∧
      ib.unread mem = [] := by
  unfold lsbInitInputBuffer at hinit
  split at hinit
  · cases hinit
  · rename_i hpos
    rcases Option.map_eq_some_iff.mp hinit with ⟨buf, _, rfl⟩
    refine ⟨?_, rfl⟩
    constructor
    · exact resumable_zero rfl
    · exact Nat.add_sub_cancel _ _
    · change lsbMaxHdrSize <= min (max + lsbMaxHdrSize) bufsiz
      apply Nat.le_min.mpr
      exact ⟨Nat.le_add_left _ _, by decide⟩
    · refine ⟨[], 0, ?_, rfl⟩
      have hempty := (frames true max).drain_undecided
        (frames true max).verdict_nil
      change (frames true max).drain [] =
        Drained.append ⟨[], 0, []⟩ ((frames true max).drain [])
      rw [hempty]
      rfl
    · rfl
    · rfl
    · rfl

/-- The counts and the output are those of the messages in `seen`. -/
structure Tallied (o : CatOptions) (seen : Seen) (x : Cat) : Prop where
  pcnt : x.pcnt = seen.length
  mcnt : x.mcnt = (o.matched seen).length
  stdout : x.stdout = (o.matched seen).flatMap (fun e => o.output e.1 e.2)

end

/-- Whatever the file is and whichever reallocations succeed, the messages that
are processed are the frames of the bytes that were read, each once and in
their order. -/
theorem loop_prefix (o : CatOptions) {max : Nat} {alloc : Option Nat}
    {ib : InputBuffer} {hmax : max + lsbMaxHdrSize <= 2 ^ 63}
    (hinit : lsbInitInputBuffer alloc max hmax = some ib) (mem : Memory)
    (file : List UInt8) {fuel : Nat} (hfuel : 2 * file.length < fuel) :
    o.loop fuel (startCat mem ib file) =
        Except.error CatStop.exitFailure ∨
      exists r done seen,
        o.loop fuel (startCat mem ib file) = Except.ok r ∧
        file = done ++ r.file ∧ SeenAll max done seen ∧ Tallied o seen r := by
  rcases processing_start (o := o) hinit mem file with ⟨hstart, hempty⟩
  have hlength : ((startCat mem ib file).ib.unread
      (startCat mem ib file).mem).length = 0 :=
    congrArg List.length hempty
  rcases loop_spec fuel hstart rfl (Or.inr hempty)
      (by rw [hlength]; exact hfuel) with
    ⟨herror, _⟩ | ⟨r, done, seen, hrun, hfile, hend, hall, _⟩
  · exact Or.inl herror
  · exact Or.inr ⟨r, done, seen, hrun, hfile, hall,
      hend.pcnt, hend.mcnt, hend.stdout⟩

/-- Where reallocations succeed and headers are short, the whole file is read,
and exactly its frames are processed. -/
theorem loop_frames (o : CatOptions) {max : Nat} {alloc : Option Nat}
    {ib : InputBuffer} {hmax : max + lsbMaxHdrSize <= 2 ^ 63}
    (hinit : lsbInitInputBuffer alloc max hmax = some ib)
    (hrealloc : forall b, o.realloc b ≠ none) (mem : Memory)
    {file : List UInt8} (hshort : ShortHeaders max file) {fuel : Nat}
    (hfuel : 2 * file.length < fuel) :
    exists r seen, o.loop fuel (startCat mem ib file) = Except.ok r ∧
      r.file = [] ∧ SeenAll max file seen ∧ Tallied o seen r := by
  rcases processing_start (o := o) hinit mem file with ⟨hstart, hempty⟩
  have hlength : ((startCat mem ib file).ib.unread
      (startCat mem ib file).mem).length = 0 :=
    congrArg List.length hempty
  rcases loop_spec fuel hstart rfl (Or.inr hempty)
      (by rw [hlength]; exact hfuel) with
    ⟨_, hfails⟩ | ⟨r, done, seen, hrun, hfile, hend, hall, hwhole⟩
  · exact absurd ⟨hrealloc, hshort⟩ hfails
  · have hnothing := hwhole ⟨hrealloc, hshort⟩
    rw [hnothing, List.append_nil] at hfile
    change file = done at hfile
    rw [← hfile] at hall
    exact ⟨r, seen, hrun, hnothing, hall,
      hend.pcnt, hend.mcnt, hend.stdout⟩

end Cli
end LuaSandbox
