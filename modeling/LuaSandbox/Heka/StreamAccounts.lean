import LuaSandbox.Heka.StreamHistory

/-!
# Byte accounts of a reader

What the calls of `find_message` consume: every byte that was appended is
skipped, belongs to a message that was found, or is still in the buffer.
-/

namespace LuaSandbox
namespace Heka

open Foundation
open Util

/-!
## Calls
-/

def Argument.bytes : Argument -> List UInt8
  | Argument.string data => data.1
  | _ => []

def Argument.stream : Argument -> Option (List UInt8)
  | Argument.file stream => stream
  | _ => none

/-- The data of a call. -/
def dataArgument (args : List Argument) : Argument := args.headD Argument.nil

/-- The third argument, which is true if it is absent. -/
def decodeArgument : List Argument -> Bool
  | [_, Argument.boolean decode] => decode
  | _ => true

/-- The bytes that a call read from its file. -/
def fileBytes (fh : Option (List UInt8)) (result : FindResult) : List UInt8 :=
  (fh.getD []).take result.need.toNat

theorem fileBytes_none (result : FindResult) : fileBytes none result = [] :=
  List.take_nil

/-- The bytes that a call appended to the buffer. -/
def appended (args : List Argument) (result : FindResult) : List UInt8 :=
  (dataArgument args).bytes ++ fileBytes (dataArgument args).stream result

/-- A call with what it returned and the message it left in the reader. -/
structure FindRecord where
  args : List Argument
  result : FindResult
  message : MessageContents

/-- Calls of `find_message`, each with the result of the reallocation it may
ask for; a call that raises an error ends them. -/
inductive FindRun : ReaderState -> List FindRecord -> ReaderState -> Prop where
  | nil {s} : FindRun s [] s
  | call {s s' s'' alloc args result records} :
      hsrFindMessage alloc s args = (Except.ok result, s') ->
      FindRun s' records s'' ->
      FindRun s (⟨args, result, s'.contents⟩ :: records) s''

/-- The bytes that a run appended. -/
def appendedBytes (records : List FindRecord) : List UInt8 :=
  (records.map (fun r => appended r.args r.result)).flatten

/-- The sum of the consumed values. -/
def consumedBytes (records : List FindRecord) : Int :=
  (records.map (fun r => r.result.consumed)).sum

/-!
## Partitions of a stream
-/

/-- No frame starts in the bytes in front of the rest. -/
def IsGarbage (decode : Bool) (max : Nat) (skipped rest : List UInt8) : Prop :=
  forall j, j < skipped.length ->
    frameVerdict decode max ((skipped ++ rest).drop j) = Verdict.reject

/-- The calls divide a stream, in order, into skipped bytes and the frames of
the messages they found; what is left is pending. -/
inductive Partition (max : Nat) :
    List FindRecord -> List UInt8 -> List UInt8 -> Prop where
  | nil {pending} : Partition max [] pending pending
  | found {record : FindRecord} {records skipped frame rest pending} :
      record.result.found = true ->
      record.result.consumed = ((skipped ++ frame).length : Nat) ->
      IsGarbage (decodeArgument record.args) max skipped (frame ++ rest) ->
      frameVerdict (decodeArgument record.args) max (frame ++ rest) =
        Verdict.frame frame.length ->
      record.message = framed (decodeArgument record.args) (payload frame) ->
      Partition max records rest pending ->
      Partition max (record :: records) (skipped ++ (frame ++ rest)) pending
  | notFound {record : FindRecord} {records skipped rest pending} :
      record.result.found = false ->
      record.result.consumed = skipped.length ->
      IsGarbage (decodeArgument record.args) max skipped rest ->
      Partition max records rest pending ->
      Partition max (record :: records) (skipped ++ rest) pending

/-- The consumed values lead to the pending bytes. -/
theorem Partition.split {max : Nat} {records : List FindRecord}
    {stream pending : List UInt8} (h : Partition max records stream pending) :
    exists taken : List UInt8, stream = taken ++ pending ∧
      consumedBytes records = taken.length := by
  induction h with
  | nil => exact ⟨[], rfl, rfl⟩
  | @found record records skipped frame rest pending _ hconsumed _ _ _ _ ih =>
      rcases ih with ⟨taken, rfl, hsum⟩
      refine ⟨skipped ++ frame ++ taken, ?_, ?_⟩
      · simp only [List.append_assoc]
      · unfold consumedBytes at hsum ⊢
        rw [List.map_cons, List.sum_cons, hsum, hconsumed,
          @List.length_append _ (skipped ++ frame)]
        omega
  | @notFound record records skipped rest pending _ hconsumed _ _ ih =>
      rcases ih with ⟨taken, rfl, hsum⟩
      refine ⟨skipped ++ taken, ?_, ?_⟩
      · rw [List.append_assoc]
      · unfold consumedBytes at hsum ⊢
        rw [List.map_cons, List.sum_cons, hsum, hconsumed, List.length_append]
        omega

/-- A call that does what a search of the pending bytes does; what is appended
later does not change what the search decided. -/
theorem Partition.seek {max : Nat} {record : FindRecord}
    {records : List FindRecord} {pending later ending : List UInt8}
    (hfound : record.result.found = ((frames (decodeArgument record.args)
      max).seek pending).found.isSome)
    (hconsumed : record.result.consumed = (pending.length : Int) -
      ((frames (decodeArgument record.args) max).seek pending).rest.length)
    (hmessage : forall f, ((frames (decodeArgument record.args) max).seek
      pending).found = some f ->
        record.message = framed (decodeArgument record.args) (payload f))
    (hrest : Partition max records (((frames (decodeArgument record.args)
      max).seek pending).rest ++ later) ending) :
    Partition max (record :: records) (pending ++ later) ending := by
  generalize hscanner : frames (decodeArgument record.args) max = scanner
    at hfound hconsumed hmessage hrest
  have hverdict : frameVerdict (decodeArgument record.args) max =
      scanner.verdict := by
    rw [← hscanner]
    rfl
  have hlength : (pending.take (scanner.seek pending).skipped).length =
      (scanner.seek pending).skipped :=
    List.length_take_of_le (scanner.seek_skipped_le pending)
  have hsplit := scanner.seek_conserves pending
  have hsum := congrArg List.length hsplit
  rw [List.length_append, List.length_append] at hsum
  cases hx : (scanner.seek pending).found with
  | none =>
      rw [hx] at hfound hsplit hsum
      have hstream : pending ++ later =
          pending.take (scanner.seek pending).skipped ++
            ((scanner.seek pending).rest ++ later) := by
        rw [← List.append_assoc]
        apply congrArg (· ++ later)
        rw [Option.getD_none, List.append_nil] at hsplit
        exact hsplit
      have hgarbage : IsGarbage (decodeArgument record.args) max
          (pending.take (scanner.seek pending).skipped)
          ((scanner.seek pending).rest ++ later) := by
        intro j hj
        rw [← hstream, hverdict]
        exact scanner.seek_rejects_append later (by omega)
      rw [hstream]
      refine Partition.notFound hfound ?_ hgarbage hrest
      rw [hconsumed]
      change _ = _ + 0 + _ at hsum
      omega
  | some f =>
      rw [hx] at hfound hsplit hsum
      have hstream : pending ++ later =
          pending.take (scanner.seek pending).skipped ++
            (f ++ ((scanner.seek pending).rest ++ later)) := by
        rw [← List.append_assoc, ← List.append_assoc]
        exact congrArg (· ++ later) hsplit
      have hgarbage : IsGarbage (decodeArgument record.args) max
          (pending.take (scanner.seek pending).skipped)
          (f ++ ((scanner.seek pending).rest ++ later)) := by
        intro j hj
        rw [← hstream, hverdict]
        exact scanner.seek_rejects_append later (by omega)
      rw [hstream]
      refine Partition.found hfound ?_ hgarbage ?_ (hmessage f hx) hrest
      · rw [hconsumed, List.length_append]
        change _ = _ + f.length + _ at hsum
        omega
      · rw [hverdict]
        exact scanner.seek_frame_append later hx

/-!
## One call
-/

section

variable {alloc : Option Nat} {s s' : ReaderState}

/-- A search that does not pass the whole buffer leaves its end. -/
theorem lsbFindHekaMessage_readpos (mem : Memory) (m : HekaMessage)
    (ib : InputBuffer) (decode : Bool) :
    let r := lsbFindHekaMessage mem m ib decode
    r.ib.readpos = ib.readpos ∨ r.found = false ∧ r.ib.readpos = 0 := by
  fun_induction lsbFindHekaMessage mem m ib decode with
  | case1 => exact Or.inl rfl
  | case2 => exact Or.inr ⟨rfl, rfl⟩
  | case3 => exact Or.inl rfl
  | case4 _ _ _ _ _ _ _ _ _ _ _ _ ih => exact ih
  | case5 => exact Or.inl rfl

/-- The consumed value is the number of bytes that left the buffer. -/
theorem consumed_eq (mem : Memory) (m : HekaMessage) (ib : InputBuffer)
    (decode : Bool) :
    let r := lsbFindHekaMessage mem m ib decode
    consumed ib r.ib r.found =
      (ib.unread mem).length - (r.ib.unread mem).length := by
  intro r
  have hreadpos : r.ib.readpos = ib.readpos ∨
      r.found = false ∧ r.ib.readpos = 0 :=
    lsbFindHekaMessage_readpos mem m ib decode
  have hle := ib.scanpos_le
  have hle' := r.ib.scanpos_le
  rw [InputBuffer.length_unread, InputBuffer.length_unread]
  unfold consumed
  by_cases hall : r.found = false ∧ r.ib.readpos = 0
  · rw [if_pos hall]
    omega
  · rw [if_neg hall]
    have hsame := hreadpos.resolve_right hall
    omega

theorem feedData_ok {data : Argument} {fh : Option (List UInt8)}
    (h : feedData alloc s data = (Except.ok fh, s')) :
    fh = data.stream ∧
      s'.hsr.buf.unread s'.mem = s.hsr.buf.unread s.mem ++ data.bytes ∧
      s'.hsr.buf.maxsize = s.hsr.buf.maxsize := by
  unfold feedData at h
  split at h
  · cases h
    exact ⟨rfl, (List.append_nil _).symm, rfl⟩
  · rename_i chunk
    split at h
    · rename_i hempty
      cases h
      change _ ∧ _ = _ ++ chunk.1 ∧ _
      rw [List.length_eq_zero_iff.mp hempty, List.append_nil]
      exact ⟨rfl, rfl, rfl⟩
    split at h
    · cases h
    · rename_i mem b hexpand
      cases h
      rcases lsbExpandInputBuffer_keeps hexpand with ⟨hunread, -, hmaxsize⟩
      have hadd : (addData mem b chunk.1 _).2.unread _ = _ ++ chunk.1 :=
        unread_addData (lsbExpandInputBuffer_fits_chunk hexpand)
      exact ⟨rfl, hadd.trans (congrArg (· ++ chunk.1) hunread), hmaxsize⟩
  · cases h
  · cases h
    exact ⟨rfl, (List.append_nil _).symm, rfl⟩
  · cases h

theorem searchOptions_ok {args : List Argument} {options : SearchOptions}
    (h : searchOptions alloc s args = (Except.ok options, s')) :
    options.decode = decodeArgument args ∧
      options.fh = (dataArgument args).stream ∧
      s'.hsr.buf.unread s'.mem =
        s.hsr.buf.unread s.mem ++ (dataArgument args).bytes ∧
      s'.hsr.buf.maxsize = s.hsr.buf.maxsize := by
  unfold searchOptions at h
  split at h
  · split at h
    · cases h
    · rename_i hfeed
      cases h
      exact ⟨rfl, feedData_ok hfeed⟩
  · split at h
    · cases h
    · rename_i hfeed
      split at h
      · cases h
        exact ⟨rfl, feedData_ok hfeed⟩
      · cases h
  · cases h

theorem reportSearch_ok {fh : Option (List UInt8)} {r : Finding}
    {result : FindResult}
    (h : reportSearch alloc s fh r = (Except.ok result, s')) :
    result.found = r.found ∧
      result.consumed = consumed s.hsr.buf r.ib r.found ∧
      (r.found = true -> s' = s.searched r) ∧
      s'.hsr.buf.unread s'.mem = r.ib.unread s.mem ++ fileBytes fh result ∧
      s'.hsr.buf.maxsize = r.ib.maxsize := by
  unfold reportSearch at h
  dsimp only at h
  split at h
  · cases h
    rw [fileBytes_none, List.append_nil]
    exact ⟨rfl, rfl, fun _ => rfl, rfl, rfl⟩
  split at h
  · rename_i hfound
    cases h
    exact ⟨hfound.symm, rfl, fun _ => rfl, (List.append_nil _).symm, rfl⟩
  rename_i _ stream hfound
  split at h
  · cases h
  · rename_i mem b hexpand
    cases h
    rcases lsbExpandInputBuffer_keeps hexpand with ⟨hunread, -, hmaxsize⟩
    refine ⟨(Bool.eq_false_iff.mpr hfound).symm, rfl,
      fun htrue => absurd htrue hfound, ?_, hmaxsize⟩
    have hbytes : fileBytes (some stream)
        ⟨false, consumed s.hsr.buf r.ib r.found,
          (stream.take (b.size - b.readpos)).length⟩ =
          stream.take (b.size - b.readpos) := by
      change stream.take (stream.take (b.size - b.readpos)).length = _
      rw [List.length_take, ← List.take_eq_take_min]
    rw [hbytes, ← hunread]
    exact unread_addData _

/-- What a call takes from the pending bytes, and what it adds to them. -/
theorem hsrFindMessage_accounts {args : List Argument} {result : FindResult}
    (hresumable : s.Resumable)
    (h : hsrFindMessage alloc s args = (Except.ok result, s')) :
    let pending := s.hsr.buf.unread s.mem ++ (dataArgument args).bytes
    let x := (frames (decodeArgument args) s.hsr.buf.maxMessageSize).seek
      pending
    result.found = x.found.isSome ∧
      result.consumed = (pending.length : Int) - x.rest.length ∧
      (forall f, x.found = some f ->
        s'.contents = framed (decodeArgument args) (payload f)) ∧
      s'.hsr.buf.unread s'.mem =
        x.rest ++ fileBytes (dataArgument args).stream result ∧
      s'.hsr.buf.maxsize = s.hsr.buf.maxsize := by
  intro pending x
  unfold hsrFindMessage at h
  split at h
  · cases h
  rename_i options s₁ hoptions
  have hresumable₁ := searchOptions_resumable hoptions hresumable
  rcases searchOptions_ok hoptions with ⟨hdecode, hfh, hunread, hmaxsize⟩
  have hscans := lsbFindHekaMessage_scans s₁.mem s₁.hsr.msg s₁.hsr.buf
    options.decode hresumable₁
  have hconsumed := consumed_eq s₁.mem s₁.hsr.msg s₁.hsr.buf options.decode
  have hmax : s₁.hsr.buf.maxMessageSize = s.hsr.buf.maxMessageSize :=
    congrArg (· - lsbMaxHdrSize) hmaxsize
  rcases reportSearch_ok h with
    ⟨hfound, hreported, hsearched, hunread', hmaxsize'⟩
  dsimp only at hconsumed
  rw [hmax, hunread, hdecode] at hscans
  rw [hunread, hdecode, hscans.unread] at hconsumed
  rw [hdecode] at hfound hreported hsearched hunread' hmaxsize'
  rw [hfh] at hunread'
  refine ⟨hfound.trans hscans.found, hreported.trans hconsumed, ?_, ?_, ?_⟩
  · intro f hf
    rw [hsearched (by rw [hscans.found, hf]; rfl)]
    exact hscans.message f hf
  · rw [hunread', hscans.unread]
  · exact hmaxsize'.trans (hscans.maxsize.trans hmaxsize)

/-!
## Runs
-/

theorem findRun_resumable {records : List FindRecord}
    (h : FindRun s records s') (hresumable : s.Resumable) :
    s'.Resumable := by
  induction h with
  | nil => exact hresumable
  | call hcall _ ih => exact ih (hsrFindMessage_resumable hcall hresumable)

/-- The calls of a run divide the pending bytes and those that are appended. -/
theorem findRun_partition {records : List FindRecord}
    (h : FindRun s records s') (hresumable : s.Resumable) :
    Partition s.hsr.buf.maxMessageSize records
      (s.hsr.buf.unread s.mem ++ appendedBytes records)
      (s'.hsr.buf.unread s'.mem) := by
  induction h with
  | nil =>
      rw [show appendedBytes [] = [] from rfl, List.append_nil]
      exact Partition.nil
  | @call s s₁ s' alloc args result records hcall hrun ih =>
      have hresumable₁ := hsrFindMessage_resumable hcall hresumable
      have hrest := ih hresumable₁
      rcases hsrFindMessage_accounts hresumable hcall with
        ⟨hfound, hconsumed, hmessage, hunread, hmaxsize⟩
      have hmax : s₁.hsr.buf.maxMessageSize = s.hsr.buf.maxMessageSize :=
        congrArg (· - lsbMaxHdrSize) hmaxsize
      rw [hunread, hmax, List.append_assoc] at hrest
      have hstream : s.hsr.buf.unread s.mem ++
          appendedBytes (⟨args, result, s₁.contents⟩ :: records) =
            (s.hsr.buf.unread s.mem ++ (dataArgument args).bytes) ++
              (fileBytes (dataArgument args).stream result ++
                appendedBytes records) := by
        unfold appendedBytes appended
        rw [List.map_cons, List.flatten_cons, List.append_assoc,
          List.append_assoc]
      rw [hstream]
      exact Partition.seek hfound hconsumed hmessage hrest

end

/-- A new reader has no bytes, and it waits for no message. -/
theorem hekaCreateStreamReader_new {name : String} {mem : Memory}
    {alloc : Option Nat} {maxMessageSize : Nat}
    {h : maxMessageSize + lsbMaxHdrSize <= 2 ^ 63} {s : ReaderState}
    (hs : hekaCreateStreamReader name mem alloc maxMessageSize h = some s) :
    s.hsr.buf.unread s.mem = [] ∧ s.Resumable ∧
      s.hsr.buf.maxMessageSize = maxMessageSize := by
  unfold hekaCreateStreamReader lsbInitInputBuffer at hs
  split at hs
  · split at hs
    · cases hs
    rename_i b hb
    cases hs
    split at hb
    · cases hb
    rcases Option.map_eq_some_iff.mp hb with ⟨buf, -, rfl⟩
    exact ⟨rfl, resumable_zero rfl, Nat.add_sub_cancel _ _⟩
  · cases hs

/-- The running sum of the consumed values is the position of the pending
bytes in the stream of those that were appended. -/
structure Accounts (maxMessageSize : Nat) (records : List FindRecord)
    (s : ReaderState) : Prop where
  sum_eq : consumedBytes records +
    ((s.hsr.buf.readpos : Int) - s.hsr.buf.scanpos) =
      (appendedBytes records).length
  partition : Partition maxMessageSize records (appendedBytes records)
    (s.hsr.buf.unread s.mem)
  checkpoint : (appendedBytes records).drop (consumedBytes records).toNat =
    s.hsr.buf.unread s.mem

/-- The calls of `find_message` on a new reader account for every byte. -/
theorem findRun_accounts {name : String} {mem : Memory}
    {alloc : Option Nat} {maxMessageSize : Nat}
    {h : maxMessageSize + lsbMaxHdrSize <= 2 ^ 63} {s s' : ReaderState}
    {records : List FindRecord}
    (hs : hekaCreateStreamReader name mem alloc maxMessageSize h = some s)
    (hrun : FindRun s records s') : Accounts maxMessageSize records s' := by
  rcases hekaCreateStreamReader_new hs with ⟨hunread, hresumable, hmax⟩
  have hpartition := findRun_partition hrun hresumable
  rw [hunread, hmax, List.nil_append] at hpartition
  rcases hpartition.split with ⟨taken, hstream, hsum⟩
  have hlength := s'.hsr.buf.length_unread s'.mem
  have hle := s'.hsr.buf.scanpos_le
  refine ⟨?_, hpartition, ?_⟩
  · rw [hstream, List.length_append, hlength, hsum]
    omega
  · rw [hsum, hstream]
    exact List.drop_left

/-- A byte of garbage and a frame, and a second call. -/
def accountedChunk : Chunk :=
  ⟨[0x61, 0x1e, 2, 8, 1, 0x1f, 0x2a, 0x62], by decide⟩

theorem findRun_accounts_sample :
    exists s s', (hsrFindMessage none newReader
        [Argument.string accountedChunk, Argument.boolean false]) =
          (Except.ok ⟨true, 7, 0⟩, s) ∧
      (hsrFindMessage none s [Argument.nil]) =
        (Except.ok ⟨false, 1, 1258⟩, s') ∧
      Accounts 1000 [⟨[Argument.string accountedChunk,
          Argument.boolean false], ⟨true, 7, 0⟩, s.contents⟩,
        ⟨[Argument.nil], ⟨false, 1, 1258⟩, s'.contents⟩] s' := by
  have hcreate : hekaCreateStreamReader "" (fun _ => 0) (some 0) 1000
      (by decide) = some newReader := rfl
  have hfirst : (hsrFindMessage none newReader
      [Argument.string accountedChunk, Argument.boolean false]).1 =
        Except.ok ⟨true, 7, 0⟩ := by
    decide +kernel
  have hsecond : (hsrFindMessage none (hsrFindMessage none newReader
      [Argument.string accountedChunk, Argument.boolean false]).2
        [Argument.nil]).1 = Except.ok ⟨false, 1, 1258⟩ := by
    decide +kernel
  exact ⟨_, _, Prod.ext hfirst rfl, Prod.ext hsecond rfl,
    findRun_accounts hcreate (FindRun.call (Prod.ext hfirst rfl)
      (FindRun.call (Prod.ext hsecond rfl) FindRun.nil))⟩

end Heka
end LuaSandbox
