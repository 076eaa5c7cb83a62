import LuaSandbox.Heka.MessageReads

/-!
# Encoding a message that was read

The outcomes of encoding a message table that is read as a message.
-/

namespace LuaSandbox
namespace Heka

open Foundation
open Lua
open Util
open Core

/-!
## The prologue
-/

/-- The state with an empty buffer. -/
def cleared (s : EncState) : EncState :=
  { s with w := { s.w with ob := s.w.ob.clear } }

theorem clear_eq {b : OutputBuffer} (h : b.pos = 0) : b.clear = b := by
  rcases b with ⟨buf, size, maxsize, pos, hpos, hsize, hobject, hinitial⟩
  cases h
  rfl

theorem cleared_eq {s : EncState} (h : s.w.ob.pos = 0) : cleared s = s := by
  unfold cleared
  rw [clear_eq h]

section

variable (random : Nat -> UInt8) (uuid : Option (List UInt8))

theorem uuidRecord_length :
    (MessageContent.uuidPiece (uuidBytes random uuid)).bytes.length = 18 := by
  change (_ :: _ :: uuidBytes random uuid).length = 18
  rw [List.length_cons, List.length_cons, uuidBytes_length]
  rfl

theorem run_lsbWriteHekaUuid (s : WriteState) :
    (lsbWriteHekaUuid random uuid).run s =
      (put 18 (MessageContent.uuidPiece (uuidBytes random uuid)).bytes
        (Nat.le_of_eq (uuidRecord_length random uuid))).run
          { s with ob := s.ob.clear } := by
  unfold lsbWriteHekaUuid
  rw [Computation.run_bind]
  rfl

theorem emits_uuid :
    Emits (put 18 (MessageContent.uuidPiece (uuidBytes random uuid)).bytes
        (Nat.le_of_eq (uuidRecord_length random uuid)))
      (MessageContent.uuidPiece (uuidBytes random uuid)) := by
  have hpiece : (⟨(MessageContent.uuidPiece (uuidBytes random uuid)).bytes, 18,
      Nat.le_of_eq (uuidRecord_length random uuid)⟩ : Piece) =
        MessageContent.uuidPiece (uuidBytes random uuid) :=
    Piece.ext rfl (uuidRecord_length random uuid).symm
  have h := emits_put 18 _ (Nat.le_of_eq (uuidRecord_length random uuid))
  rwa [hpiece] at h

theorem run_put_error {needed : Nat} {xs : List UInt8}
    {h : xs.length <= needed} {s t : WriteState} {e : LsbErr}
    (hrun : (put needed xs h).run s = (Except.error e, t)) : t = s := by
  unfold put at hrun
  rw [Computation.run_ofFun] at hrun
  split at hrun
  · cases hrun
    rfl
  · cases hrun

/-- The first bytes of a message fit a new buffer, if they fit at all. -/
theorem le_initialSize {n maxsize : Nat} (h : n <= lsbOutputSize)
    (hlimit : maxsize = 0 ∨ n <= maxsize) : n <= initialSize maxsize := by
  unfold initialSize
  split <;> omega

theorem limit_of_le_capacity {n : Nat} {b : OutputBuffer}
    (h : n <= b.capacity) : b.maxsize = 0 ∨ n <= b.maxsize := by
  unfold OutputBuffer.capacity at h
  split at h <;> omega

theorem run_put_error_limit {n : Nat} {xs : List UInt8} {h : xs.length <= n}
    {s t : WriteState} {e : LsbErr}
    (hrun : (put n xs h).run s = (Except.error e, t))
    (hpos : s.ob.pos = 0) (hn : n <= lsbOutputSize) :
    ¬ n <= s.ob.capacity := by
  intro hcapacity
  have hroom : s.ob.pos + n <= s.ob.size := by
    rw [hpos, Nat.zero_add]
    exact Nat.le_trans (le_initialSize hn (limit_of_le_capacity hcapacity))
      s.ob.initial_le
  rw [run_put_room hroom] at hrun
  cases hrun

/-- The uuid is written to the cleared buffer, or nothing is. -/
theorem writeUuid_cases (s : EncState) :
    (exists s1, (write (lsbWriteHekaUuid random uuid)).run s =
        (Except.ok (), s1) ∧ s1.lua = s.lua ∧
      Emitted (MessageContent.uuidPiece (uuidBytes random uuid)) (cleared s).w
        s1.w ∧
      Fits (MessageContent.uuidPiece (uuidBytes random uuid)) (cleared s).w) ∨
    (exists e s1, (write (lsbWriteHekaUuid random uuid)).run s =
        (Except.error (Stop.err e), s1) ∧ s1.lua = s.lua ∧
      s1.w = (cleared s).w ∧
      ¬ Fits (MessageContent.uuidPiece (uuidBytes random uuid))
        (cleared s).w) := by
  have hpos : (cleared s).w.ob.pos = 0 := rfl
  unfold write
  rw [Computation.run_ofFun, run_lsbWriteHekaUuid random uuid]
  generalize hrun : (put 18 _ _).run { s.w with ob := s.w.ob.clear } = r
  rcases r with ⟨e | a, t⟩
  · have hsame := run_put_error hrun
    have hlimit := run_put_error_limit hrun hpos (by decide)
    subst hsame
    refine Or.inr ⟨e, _, rfl, rfl, rfl, ?_⟩
    unfold Fits
    rw [hpos, Nat.zero_add]
    change ¬ (MessageContent.uuidPiece _).bytes.length <= _
    rw [uuidRecord_length]
    exact hlimit
  · rcases (emits_uuid random uuid).ok hrun with ⟨hemitted, hfits⟩
    exact Or.inl ⟨_, rfl, rfl, hemitted, hfits⟩

end

section

variable {env : EncodeEnv} {cfg : HekaConfig} {t : Value}
  {L L' : LuaState} {s : EncState}

theorem run_access_reads {α : Type}
    {f : LuaState -> OutputBuffer -> Accessed α} {a : α}
    (h : Reads f L a L') (hL : s.lua = L) :
    (access f).run s = (Except.ok a, { s with lua := L' }) := by
  unfold access
  rw [Computation.run_ofFun, hL, h s.w.ob]

theorem run_getfield {u : Value} {name : String} {v : Value}
    (h : GetsField env L u name v L') (hL : s.lua = L) :
    (getfield env u name).run s = (Except.ok v, { s with lua := L' }) :=
  run_access_reads h hL

theorem run_setfield {name : String} {value : Value}
    (h : SetsField env L t name value L') (hL : s.lua = L) :
    (setfield env t name value).run s =
      (Except.ok (), { s with lua := L' }) :=
  run_access_reads h hL

theorem run_setMissing {name : String} {value : Option Value}
    (h : MissingSet env t name L value L') (hL : s.lua = L) :
    (setMissing env t name value).run s =
      (Except.ok (), { s with lua := L' }) := by
  unfold setMissing
  cases h with
  | set hget hset =>
      rw [Computation.run_bind_ok (run_getfield hget hL)]
      exact run_setfield hset rfl
  | unknown hget =>
      rw [Computation.run_bind_ok (run_getfield hget hL)]
      rfl
  | there hget hne =>
      rw [Computation.run_bind_ok (run_getfield hget hL)]
      split
      · exact absurd rfl hne
      · rfl

/-- What comes behind the uuid when the headers are not restricted. -/
theorem run_rest {L1 L2 L3 L4 : LuaState} {w : Value} (hL : s.lua = L)
    (htimestamp : GetsField env L t "Timestamp" w L1)
    (hlogger : MissingSet env t "Logger" L1 (cfg.name.map Value.string) L2)
    (hhostname : MissingSet env t "Hostname" L2
      (cfg.hostname.map Value.string) L3)
    (hpid : MissingSet env t "Pid" L3 (some (integer cfg.pid)) L4) :
    (do
      let timestamp <- getfield env t "Timestamp"
      setMissingHeaders env cfg t
      pure (timestampOf env timestamp)).run s =
        (Except.ok (timestampOf env w), { s with lua := L4 }) := by
  have hheaders {s1 : EncState} (hlua : s1.lua = L1) :
      (setMissingHeaders env cfg t).run s1 =
        (Except.ok (), { s1 with lua := L4 }) := by
    unfold setMissingHeaders
    rw [Computation.run_bind_ok (run_setMissing hlogger hlua),
      Computation.run_bind_ok (run_setMissing hhostname rfl)]
    exact run_setMissing hpid rfl
  rw [Computation.run_bind_ok (run_getfield htimestamp hL),
    Computation.run_bind_ok (hheaders rfl)]
  rfl

/-- How the prologue ends: the uuid is in the buffer, or it did not fit and is
left out, or it did not fit and the prologue fails. -/
inductive PrologueOutcome (cfg : HekaConfig) (uuid : List UInt8) (ts : Int)
    (L' : LuaState) (c : WriteState) : Except Stop Int × EncState -> Prop where
  | written {s1} :
      s1.lua = L' ->
      Emitted (MessageContent.uuidPiece uuid) c s1.w ->
      Fits (MessageContent.uuidPiece uuid) c ->
      PrologueOutcome cfg uuid ts L' c (Except.ok ts, s1)
  | dropped {s1} :
      cfg.restrictedHeaders = false ->
      s1.lua = L' ->
      s1.w = c ->
      ¬ Fits (MessageContent.uuidPiece uuid) c ->
      PrologueOutcome cfg uuid ts L' c (Except.ok ts, s1)
  | failed {e s1} :
      cfg.restrictedHeaders = true ->
      s1.w = c ->
      ¬ Fits (MessageContent.uuidPiece uuid) c ->
      PrologueOutcome cfg uuid ts L' c (Except.error (Stop.err e), s1)

theorem PrologueReads.outcome {uuid : Option (List UInt8)} {ts : Int}
    (h : PrologueReads env cfg t L uuid ts L') (hL : s.lua = L) :
    PrologueOutcome cfg (uuidBytes env.random uuid) ts L' (cleared s).w
      ((encodePrologue env cfg t).run s) := by
  have hclear : (write clearBuffer).run s = (Except.ok (), cleared s) := rfl
  have hpos : (cleared s).w.ob.pos = 0 := rfl
  have hLua : (cleared s).lua = L := hL
  unfold encodePrologue
  rw [Computation.run_bind_ok hclear]
  generalize cleared s = c at hpos hLua ⊢
  cases h with
  | restricted hcfg hlogger hhostname hpid =>
      have hcases := writeUuid_cases env.random none c
      rw [if_pos hcfg]
      rw [cleared_eq hpos] at hcases
      rcases hcases with
        ⟨s1, hwrite, hlua, hemitted, hfits⟩ | ⟨e, s1, hwrite, _, hw, hfull⟩
      · rw [Computation.run_bind_ok hwrite, Computation.run_bind_ok
          (run_setfield hlogger (hlua.trans hLua)),
          Computation.run_bind_ok (run_setfield hhostname rfl),
          Computation.run_bind_ok (run_setfield hpid rfl)]
        exact PrologueOutcome.written rfl hemitted hfits
      · rw [Computation.run_bind_error hwrite]
        exact PrologueOutcome.failed hcfg hw hfull
  | unrestricted hcfg huuid htimestamp hlogger hhostname hpid =>
      rename_i L1 _ _ _ u w
      have hrest {s1 : EncState} (hlua : s1.lua = _) :=
        run_rest hlua htimestamp hlogger hhostname hpid
      rw [if_neg (by rw [hcfg]; decide),
        Computation.run_bind_ok (run_getfield huuid hLua)]
      have hcases := writeUuid_cases env.random (u.tostring env.fmt)
        { c with lua := L1 }
      have hpos' : ({ c with lua := L1 } : EncState).w.ob.pos = 0 := hpos
      rw [cleared_eq hpos'] at hcases
      rcases hcases with
        ⟨s1, hwrite, hlua, hemitted, hfits⟩ | ⟨e, s1, hwrite, hlua, hw, hfull⟩
      · rw [Computation.run_bind_ok (run_attempt_ok hwrite), hrest hlua]
        exact PrologueOutcome.written rfl hemitted hfits
      · rw [Computation.run_bind_ok (run_attempt_err hwrite), hrest hlua]
        exact PrologueOutcome.dropped hcfg rfl hw hfull

/-!
## The message
-/

/-- The NUL behind the contents changes nothing that is looked at. -/
theorem emitted_terminated {c : Piece} {w : WriteState} {s1 : EncState}
    (h : Emitted c w s1.w) : Emitted c w (terminated s1).w where
  contents := by
    rw [← h.contents]
    exact OutputBuffer.contents_overwrite_pos _ _
  maxsize := h.maxsize
  alloc := h.alloc

/-- How the encoding of a message ends, from an empty buffer: it is written,
it is written but for the uuid, the uuid does not fit and nothing is written, or
the message does not fit. -/
inductive MessageOutcome (cfg : HekaConfig) (m : MessageContent)
    (L' : LuaState) (c : WriteState) :
    Except Stop Unit × EncState -> Prop where
  | whole {s1} :
      s1.lua = L' ->
      Emitted m.piece c s1.w ->
      Fits m.piece c ->
      MessageOutcome cfg m L' c (Except.ok (), s1)
  | withoutUuid {s1} :
      cfg.restrictedHeaders = false ->
      s1.lua = L' ->
      Emitted (m.records ++ Piece.room 1) c s1.w ->
      Fits (m.records ++ Piece.room 1) c ->
      ¬ Fits (MessageContent.uuidPiece m.uuid) c ->
      MessageOutcome cfg m L' c (Except.ok (), s1)
  | empty {e s1} :
      cfg.restrictedHeaders = true ->
      s1.w = c ->
      ¬ Fits (MessageContent.uuidPiece m.uuid) c ->
      MessageOutcome cfg m L' c (Except.error (Stop.err e), s1)
  | failed {e s1} :
      (c.MemoryAvailable -> ¬ Fits m.piece c) ->
      MessageOutcome cfg m L' c (Except.error (Stop.err e), s1)

theorem fits_uuid_of_fits {m : MessageContent} {c : WriteState}
    (h : Fits m.piece c) : Fits (MessageContent.uuidPiece m.uuid) c := by
  unfold MessageContent.piece at h
  unfold Fits at h ⊢
  rw [Piece.need_append, Piece.need_append] at h
  omega

theorem message_outcome {below : Value} {m : MessageContent} {n : Nat}
    {uuid : Option (List UInt8)} {L1 : LuaState}
    (hprologue : PrologueReads env cfg t L uuid m.timestamp L1)
    (huuid : m.uuid = uuidBytes env.random uuid)
    (hencode : Encodes (encodeSections env n m.timestamp below t) L1
      (m.records ++ Piece.room 1) () L')
    (hL : s.lua = L) :
    MessageOutcome cfg m L' (cleared s).w
      ((hekaEncodeMessageTable env cfg n below t).run s) := by
  have houtcome := hprologue.outcome hL
  rw [← huuid] at houtcome
  generalize hrun : (encodePrologue env cfg t).run s = r at houtcome
  generalize (cleared s).w = c at houtcome ⊢
  cases houtcome with
  | failed hcfg hw hfull =>
      rw [run_hekaEncodeMessageTable_prologue hrun]
      exact MessageOutcome.empty hcfg hw hfull
  | written hlua hemitted hfits =>
      rename_i s1
      generalize hrun' :
        (encodeSections env n m.timestamp below t).run s1 = r
      rcases r with ⟨stop | a, s2⟩
      · rcases hencode.error hlua hrun' with ⟨⟨e, rfl⟩, hfull⟩
        rw [run_hekaEncodeMessageTable_err hrun hrun']
        apply MessageOutcome.failed
        intro halloc hfits'
        apply hfull
        · intro k
          rw [hemitted.alloc]
          exact halloc k
        · unfold MessageContent.piece at hfits'
          rw [Piece.append_assoc] at hfits'
          exact ((fits_append hemitted).mp hfits').2
      · rcases hencode.ok hlua hrun' with ⟨_, hlua', hemitted', hfits'⟩
        rw [run_hekaEncodeMessageTable_ok hrun hrun']
        have hpiece : m.piece = MessageContent.uuidPiece m.uuid ++
            (m.records ++ Piece.room 1) :=
          Piece.append_assoc _ _ _
        refine MessageOutcome.whole hlua' ?_ ?_
        · rw [hpiece]
          exact emitted_terminated (hemitted.trans hemitted')
        · rw [hpiece]
          exact (fits_append hemitted).mpr ⟨hfits, hfits'⟩
  | dropped hcfg hlua hw hfull =>
      rename_i s1
      generalize hrun' :
        (encodeSections env n m.timestamp below t).run s1 = r
      rcases r with ⟨stop | a, s2⟩
      · rcases (hencode.error hlua hrun').1 with ⟨e, rfl⟩
        rw [run_hekaEncodeMessageTable_err hrun hrun']
        exact MessageOutcome.failed
          (fun _ hfits => hfull (fits_uuid_of_fits hfits))
      · rcases hencode.ok hlua hrun' with ⟨_, hlua', hemitted', hfits'⟩
        rw [run_hekaEncodeMessageTable_ok hrun hrun']
        rw [hw] at hemitted' hfits'
        exact MessageOutcome.withoutUuid hcfg hlua'
          (emitted_terminated hemitted') hfits' hfull

/-- With enough fuel. -/
theorem MessageReads.outcome {below : Value} {m : MessageContent}
    (h : MessageReads env cfg below t L m L') :
    exists n0, forall n, n0 <= n -> forall s, s.lua = L ->
      MessageOutcome cfg m L' (cleared s).w
        ((hekaEncodeMessageTable env cfg n below t).run s) := by
  rcases h with ⟨uuid, L1, hprologue, huuid, hrecords⟩
  rcases hrecords.encodesSections with ⟨n0, hsections⟩
  exact ⟨n0, fun n hn s hL =>
    message_outcome hprologue huuid (hsections n hn) hL⟩

end

end Heka
end LuaSandbox
