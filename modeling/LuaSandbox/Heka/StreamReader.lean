import LuaSandbox.Util.Chunking

/-!
# Stream readers

The object that a plugin reads a stream of framed Heka messages with: an input
buffer and the message that was found in it last.
-/

namespace LuaSandbox
namespace Heka

open Foundation
open Util

/-!
## The reader
-/

structure HekaStreamReader where
  name : String
  msg : HekaMessage
  buf : InputBuffer

/-- The reader and the memory that its buffer and its message lie in. -/
structure ReaderState where
  mem : Memory
  hsr : HekaStreamReader

/-- A reader whose buffer was allocated at `alloc`. -/
def hekaCreateStreamReader (name : String) (mem : Memory)
    (alloc : Option Nat) (maxMessageSize : Nat)
    (h : maxMessageSize + lsbMaxHdrSize <= 2 ^ 63) : Option ReaderState :=
  if name.utf8ByteSize < 255 then
    match lsbInitInputBuffer alloc maxMessageSize h with
    | none => none
    | some buf => some ⟨mem, ⟨name, lsbClearHekaMessage, buf⟩⟩
  else
    none

/-- A Lua value, as the methods of a reader tell them apart. -/
inductive Argument where
  | nil
  | boolean (b : Bool)
  | string (s : Chunk)
  /-- a file handle with the bytes that it delivers; a closed one is `none` -/
  | file (stream : Option (List UInt8))
  | other

inductive HsrError where
  /-- raised by a check of the argument `narg` -/
  | badArgument (narg : Nat)
  | error (message : String)
  deriving DecidableEq

def reallocationFailed (hsr : HekaStreamReader) : HsrError :=
  HsrError.error ("buffer reallocation failed\tname:" ++ hsr.name)

/-!
## Decoding a string
-/

/-- The buffer with nothing in it and no message announced. -/
def clearPositions (b : InputBuffer) : InputBuffer :=
  { b with
    readpos := 0
    scanpos := 0
    msglen := 0
    scanpos_le := scanpos_zero
    readpos_le := b.zero_le_size }

def hsrDecodeMessage (alloc : Option Nat) (s : ReaderState)
    (args : List Argument) : Except HsrError Unit × ReaderState :=
  match args with
  | [arg] =>
      let hsr := { s.hsr with buf := clearPositions s.hsr.buf }
      match arg with
      | Argument.string data =>
          if data.1.length = 0 then
            (Except.error (HsrError.error "empty protobuf string"),
              { s with hsr := hsr })
          else
            match lsbExpandInputBuffer s.mem alloc hsr.buf data.1.length with
            | (some _, mem, b) =>
                (Except.error (reallocationFailed hsr),
                  ⟨mem, { hsr with buf := b }⟩)
            | (none, mem, b) =>
                -- the positions still say that the buffer is empty
                let mem := mem.write b.buf data.1
                match lsbDecodeHekaMessage mem b.buf data.1.length with
                | (false, m) =>
                    (Except.error (HsrError.error "invalid protobuf string"),
                      ⟨mem, { hsr with msg := m, buf := b }⟩)
                | (true, m) =>
                    (Except.ok (), ⟨mem, { hsr with msg := m, buf := b }⟩)
      | _ =>
          (Except.error (HsrError.error "buffer must be string"),
            { s with hsr := hsr })
  | _ => (Except.error (HsrError.badArgument 0), s)

/-!
## Finding a message
-/

/-- The number of bytes that are read from the stream for an unfinished
search; the header length is read as a signed `char`. -/
def needed (mem : Memory) (b : InputBuffer) : Nat :=
  if b.msglen ≠ 0 then
    (b.msglen + charToSize (mem (b.buf + b.scanpos + 1)) + lsbHdrFrameSize +
      (2 ^ 64 - (b.readpos - b.scanpos))) % 2 ^ 64
  else
    b.scanpos + b.size - b.readpos

/-- What a search was asked for: an open file to read more from, and whether
to decode. -/
structure SearchOptions where
  fh : Option (List UInt8)
  decode : Bool

/-- Add the data of the second argument to the buffer. -/
def feedData (alloc : Option Nat) (s : ReaderState) (data : Argument) :
    Except HsrError (Option (List UInt8)) × ReaderState :=
  match data with
  | Argument.nil => (Except.ok none, s)
  | Argument.string chunk =>
      if chunk.1.length = 0 then
        (Except.ok none, s)
      else
        match h : lsbExpandInputBuffer s.mem alloc s.hsr.buf
            chunk.1.length with
        | (some _, mem, b) =>
            (Except.error (reallocationFailed s.hsr),
              ⟨mem, { s.hsr with buf := b }⟩)
        | (none, mem, b) =>
            match addData mem b chunk.1 (lsbExpandInputBuffer_fits_chunk h) with
            | (mem, b) => (Except.ok none, ⟨mem, { s.hsr with buf := b }⟩)
  | Argument.file none =>
      (Except.error (HsrError.error "attempt to use a closed file"), s)
  | Argument.file (some stream) => (Except.ok (some stream), s)
  | _ =>
      (Except.error
        (HsrError.error "buffer must be a nil, string, userdata (FILE*)"), s)

/-- The arguments of `find_message`; the data is added before the third
argument is looked at. -/
def searchOptions (alloc : Option Nat) (s : ReaderState)
    (args : List Argument) : Except HsrError SearchOptions × ReaderState :=
  match args with
  | [data] =>
      match feedData alloc s data with
      | (Except.error e, s) => (Except.error e, s)
      | (Except.ok fh, s) => (Except.ok ⟨fh, true⟩, s)
  | [data, decode] =>
      match feedData alloc s data with
      | (Except.error e, s) => (Except.error e, s)
      | (Except.ok fh, s) =>
          match decode with
          | Argument.boolean decode => (Except.ok ⟨fh, decode⟩, s)
          | _ => (Except.error (HsrError.badArgument 3), s)
  | _ => (Except.error (HsrError.badArgument 0), s)

/-- The three values that `find_message` returns. -/
structure FindResult where
  found : Bool
  consumed : Int
  /-- the bytes needed, or the bytes read from a file -/
  need : Int
  deriving DecidableEq

/-- The bytes of the stream that were passed by a search. -/
def consumed (before after : InputBuffer) (found : Bool) : Int :=
  if found = false ∧ after.readpos = 0 then
    (before.readpos : Int) - before.scanpos
  else
    (after.scanpos : Int) - before.scanpos

/-- Read from a file to the end of the buffer. -/
def fillBuffer (mem : Memory) (b : InputBuffer) (stream : List UInt8) :
    Memory × InputBuffer :=
  addData mem b (stream.take (b.size - b.readpos)) (by
    have hread := b.readpos_le
    have hlength := List.length_take_le (b.size - b.readpos) stream
    omega)

/-- What is reported of a search, and what is read from the file. -/
def reportSearch (alloc : Option Nat) (s : ReaderState)
    (fh : Option (List UInt8)) (r : Finding) :
    Except HsrError FindResult × ReaderState :=
  let moved := consumed s.hsr.buf r.ib r.found
  let hsr := { s.hsr with msg := r.m, buf := r.ib }
  match fh with
  | none =>
      let need :=
        if r.found then if r.ib.scanpos ≠ r.ib.readpos then 0 else r.ib.size
        else needed s.mem r.ib
      (Except.ok ⟨r.found, moved, toLongLong need⟩, ⟨s.mem, hsr⟩)
  | some stream =>
      if r.found then
        (Except.ok ⟨true, moved, 0⟩, ⟨s.mem, hsr⟩)
      else
        match lsbExpandInputBuffer s.mem alloc r.ib (needed s.mem r.ib) with
        | (some _, mem, b) =>
            (Except.error (reallocationFailed hsr),
              ⟨mem, { hsr with buf := b }⟩)
        | (none, mem, b) =>
            let nread := (stream.take (b.size - b.readpos)).length
            match fillBuffer mem b stream with
            | (mem, b) =>
                (Except.ok ⟨false, moved, nread⟩,
                  ⟨mem, { hsr with buf := b }⟩)

def hsrFindMessage (alloc : Option Nat) (s : ReaderState)
    (args : List Argument) : Except HsrError FindResult × ReaderState :=
  match searchOptions alloc s args with
  | (Except.error e, s) => (Except.error e, s)
  | (Except.ok options, s) =>
      reportSearch alloc s options.fh
        (lsbFindHekaMessage s.mem s.hsr.msg s.hsr.buf options.decode)

/-!
## What the methods do
-/

/-- The reader with another buffer. -/
def ReaderState.withBuffer (s : ReaderState) (x : Memory × InputBuffer) :
    ReaderState :=
  ⟨x.1, { s.hsr with buf := x.2 }⟩

/-- The reader after a search. -/
def ReaderState.searched (s : ReaderState) (r : Finding) : ReaderState :=
  ⟨s.mem, { s.hsr with msg := r.m, buf := r.ib }⟩

/-- What becomes of the reader when data is added. -/
inductive Fed (alloc : Option Nat) (s : ReaderState) (data : Argument) :
    Option (Option (List UInt8)) -> ReaderState -> Prop where
  | kept {fh : Option (Option (List UInt8))}
      (hfh : forall stream, fh ≠ some (some stream)) : Fed alloc s data fh s
  | file {stream : List UInt8} (hdata : data = Argument.file (some stream)) :
      Fed alloc s data (some (some stream)) s
  | failed {chunk : Chunk} {e : InputBufferError} {mem : Memory}
      {b : InputBuffer} (hdata : data = Argument.string chunk)
      (hne : chunk.1.length ≠ 0)
      (hexpand : lsbExpandInputBuffer s.mem alloc s.hsr.buf chunk.1.length =
        (some e, mem, b)) :
      Fed alloc s data none (s.withBuffer (mem, b))
  | added {chunk : Chunk} {mem : Memory} {b : InputBuffer}
      (hdata : data = Argument.string chunk) (hne : chunk.1.length ≠ 0)
      (hexpand : lsbExpandInputBuffer s.mem alloc s.hsr.buf chunk.1.length =
        (none, mem, b)) :
      Fed alloc s data (some none) (s.withBuffer
        (addData mem b chunk.1 (lsbExpandInputBuffer_fits_chunk hexpand)))

theorem feedData_fed {alloc : Option Nat} {s s' : ReaderState}
    {data : Argument} {r : Except HsrError (Option (List UInt8))}
    (h : feedData alloc s data = (r, s')) :
    Fed alloc s data r.toOption s' := by
  unfold feedData at h
  split at h
  · cases h
    exact Fed.kept nofun
  · split at h
    · cases h
      exact Fed.kept nofun
    rename_i hne
    split at h
    · rename_i hexpand
      cases h
      exact Fed.failed rfl hne hexpand
    · rename_i hexpand
      cases h
      exact Fed.added rfl hne hexpand
  · cases h
    exact Fed.kept nofun
  · cases h
    exact Fed.file rfl
  · cases h
    exact Fed.kept nofun

/-- The third argument is absent or a boolean. -/
def validDecode : List Argument -> Bool
  | [] => true
  | [Argument.boolean _] => true
  | _ => false

/-- The reader after the arguments of `find_message`, which starts a search
only if all of them are valid. -/
theorem searchOptions_fed {alloc : Option Nat} {s s' : ReaderState}
    {args : List Argument} {r : Except HsrError SearchOptions}
    (h : searchOptions alloc s args = (r, s')) :
    s' = s ∧ r.toOption = none ∨
      exists data rest fh, args = data :: rest ∧ rest.length <= 1 ∧
        Fed alloc s data fh s' ∧ r.toOption.map SearchOptions.fh =
          if validDecode rest then fh else none := by
  unfold searchOptions at h
  split at h
  · rename_i data
    split at h
    · rename_i e s₁ hfeed
      cases h
      exact Or.inr ⟨data, [], none, rfl, Nat.zero_le _, feedData_fed hfeed,
        rfl⟩
    · rename_i fh s₁ hfeed
      cases h
      exact Or.inr ⟨data, [], some fh, rfl, Nat.zero_le _,
        feedData_fed hfeed, rfl⟩
  · rename_i data decode
    split at h
    · rename_i e s₁ hfeed
      cases h
      exact Or.inr ⟨data, [decode], none, rfl, Nat.le_refl _,
        feedData_fed hfeed, by rw [ite_self]; rfl⟩
    · rename_i fh s₁ hfeed
      split at h
      · cases h
        exact Or.inr ⟨data, [_], some fh, rfl, Nat.le_refl _,
          feedData_fed hfeed, rfl⟩
      · rename_i hbool
        cases h
        have hvalid : validDecode [decode] = false := by
          cases decode with
          | boolean b => exact absurd rfl (hbool b)
          | nil | string | file | other => rfl
        refine Or.inr ⟨data, [decode], some fh, rfl, Nat.le_refl _,
          feedData_fed hfeed, ?_⟩
        rw [hvalid]
        rfl
  · cases h
    exact Or.inl ⟨rfl, rfl⟩

/-- What becomes of the reader after a search. -/
inductive Reported (alloc : Option Nat) (s : ReaderState)
    (fh : Option (List UInt8)) (r : Finding) :
    Option FindResult -> ReaderState -> Prop where
  | searched {result : FindResult} (hresult : result.found = r.found)
      (hfh : fh = none ∨ r.found = true) :
      Reported alloc s fh r (some result) (s.searched r)
  | failed {stream : List UInt8} {e : InputBufferError} {mem : Memory}
      {b : InputBuffer} (hfh : fh = some stream) (hfound : r.found = false)
      (hexpand : lsbExpandInputBuffer s.mem alloc r.ib (needed s.mem r.ib) =
        (some e, mem, b)) :
      Reported alloc s fh r none ((s.searched r).withBuffer (mem, b))
  | filled {stream : List UInt8} {mem : Memory} {b : InputBuffer}
      {result : FindResult} (hresult : result.found = false)
      (hfh : fh = some stream) (hfound : r.found = false)
      (hexpand : lsbExpandInputBuffer s.mem alloc r.ib (needed s.mem r.ib) =
        (none, mem, b)) :
      Reported alloc s fh r (some result)
        ((s.searched r).withBuffer (fillBuffer mem b stream))

theorem reportSearch_reported {alloc : Option Nat} {s s' : ReaderState}
    {fh : Option (List UInt8)} {r : Finding}
    {result : Except HsrError FindResult}
    (h : reportSearch alloc s fh r = (result, s')) :
    Reported alloc s fh r result.toOption s' := by
  unfold reportSearch at h
  dsimp only at h
  split at h
  · cases h
    exact Reported.searched rfl (Or.inl rfl)
  split at h
  · rename_i hfound
    cases h
    exact Reported.searched hfound.symm (Or.inr hfound)
  rename_i hfound
  have hfound' : r.found = false := Bool.eq_false_iff.mpr hfound
  split at h
  · rename_i hexpand
    cases h
    exact Reported.failed rfl hfound' hexpand
  · rename_i hexpand
    cases h
    exact Reported.filled rfl rfl hfound' hexpand

/-!
## Calls
-/

/-- The calls a plugin makes with a reader. -/
inductive HsrCall where
  | decodeMessage (args : List Argument)
  | findMessage (args : List Argument)
  | readMessage (args : List Argument)
  | injectMessage

/-- The reader after a call, and whether the call delivered a message; reading
and injecting leave the reader as it is. -/
def HsrCall.run (alloc : Option Nat) (s : ReaderState) :
    HsrCall -> Bool × ReaderState
  | HsrCall.decodeMessage args =>
      match hsrDecodeMessage alloc s args with
      | (Except.ok _, s) => (true, s)
      | (Except.error _, s) => (false, s)
  | HsrCall.findMessage args =>
      match hsrFindMessage alloc s args with
      | (Except.ok r, s) => (r.found, s)
      | (Except.error _, s) => (false, s)
  | HsrCall.readMessage _ => (false, s)
  | HsrCall.injectMessage => (false, s)

/-- The states of a reader under calls, each with the result of the
reallocation it may ask for. -/
inductive HsrReachable : ReaderState -> Prop where
  | create {name : String} {mem : Memory} {alloc : Option Nat}
      {maxMessageSize : Nat} {h : maxMessageSize + lsbMaxHdrSize <= 2 ^ 63}
      {s : ReaderState}
      (hs : hekaCreateStreamReader name mem alloc maxMessageSize h = some s) :
      HsrReachable s
  | call {s : ReaderState} (alloc : Option Nat) (call : HsrCall)
      (hs : HsrReachable s) : HsrReachable (call.run alloc s).2

end Heka
end LuaSandbox
