import LuaSandbox.Heka.EncodeBounds
import LuaSandbox.Heka.EncodeSound

/-!
# Complete messages

An encoding that ends without an error has written every section, but perhaps
the uuid: a failure to write that is not looked at.
-/

namespace LuaSandbox
namespace Heka

open Foundation
open Lua
open Util
open Core

/-!
## Failed writes
-/

/-- A normal end means that no write has failed. -/
def failuresEffect : Effect EncState where
  done s t := t.failures = s.failures
  failed _ _ := True
  refl _ := rfl
  trans _ _ _ hst htu := htu.trans hst
  trans_failed _ _ _ _ _ := True.intro

theorem write_failuresEffect {α : Type} (x : Writer α) :
    HasEffect failuresEffect (write x) where
  done := by
    intro s a t h
    unfold write at h
    rw [Computation.run_ofFun] at h
    split at h
    · cases h
      rfl
    · cases h
  failed := fun _ => True.intro

theorem access_failuresEffect {α : Type}
    (f : LuaState -> OutputBuffer -> Accessed α) :
    HasEffect failuresEffect (access f) where
  done := by
    intro s a t h
    unfold access at h
    rw [Computation.run_ofFun] at h
    dsimp only at h
    split at h
    · cases h
      rfl
    · cases h
  failed := fun _ => True.intro

theorem failWith_failuresEffect {α : Type} (message : List UInt8)
    (e : LsbErr) :
    HasEffect failuresEffect (failWith message e : Enc α) where
  done := fun h => absurd h not_failWith
  failed := fun _ => True.intro

/-- An attempt that has an error value has recorded it. -/
theorem attempt_write_failures {x : Writer Unit} {s t : EncState}
    {r : Option LsbErr}
    (h : (attempt (write x)).run s = (Except.ok r, t)) :
    t.failures = s.failures ++ r.toList := by
  unfold attempt write at h
  rw [Computation.run_ofFun, Computation.run_ofFun] at h
  generalize x.run s.w = y at h
  rcases y with ⟨e | a, w⟩
  · cases h
    rfl
  · cases h
    exact (List.append_nil _).symm

theorem steps_failuresEffect (env : EncodeEnv) :
    StepsHaveEffect env failuresEffect where
  put needed xs h := write_failuresEffect _
  update lenPos := write_failuresEffect _
  expand := write_failuresEffect _
  outputs s message e := by
    constructor
    · intro s1 a t h
      rcases Computation.run_bind_eq_ok h with ⟨r, s2, hwrite, hrest⟩
      have hfailures := attempt_write_failures hwrite
      cases r with
      | none =>
          cases hrest
          exact hfailures.trans (List.append_nil _)
      | some e' => exact absurd hrest not_failWith
    · exact fun _ => True.intro
  getfield t name := access_failuresEffect _
  next f k := access_failuresEffect _
  failWith message e := failWith_failuresEffect message e
  depth := ⟨fun h => (nomatch h), fun _ => True.intro⟩

/-!
## The limit
-/

/-- The uuid record has 18 bytes. -/
def LimitHoldsUuid (maxsize : Nat) : Prop :=
  maxsize = 0 ∨ 18 <= maxsize

instance (maxsize : Nat) : Decidable (LimitHoldsUuid maxsize) :=
  inferInstanceAs (Decidable (maxsize = 0 ∨ 18 <= maxsize))

theorem fits_uuid_iff {random : Nat -> UInt8} {uuid : Option (List UInt8)}
    {c : WriteState} (hpos : c.ob.pos = 0) :
    Fits (MessageContent.uuidPiece (uuidBytes random uuid)) c <->
      LimitHoldsUuid c.ob.maxsize := by
  have hneed : (MessageContent.uuidPiece (uuidBytes random uuid)).need = 18 :=
    uuidRecord_length random uuid
  unfold Fits LimitHoldsUuid
  rw [hneed, hpos, Nat.zero_add]
  constructor
  · exact limit_of_le_capacity
  · intro hlimit
    exact Nat.le_trans (le_initialSize (by decide) hlimit)
      (Nat.le_trans c.ob.initial_le c.ob.size_le_capacity)

theorem getfield_maxsize {env : EncodeEnv} {t : Value} {name : String}
    {s s1 : EncState} {v : Value}
    (h : (getfield env t name).run s = (Except.ok v, s1)) :
    s1.w.ob.maxsize = s.w.ob.maxsize := by
  have hmaxsize := luaGetfield_maxsize env.plugin t (ascii name) s.lua s.w.ob
  unfold getfield access at h
  rw [Computation.run_ofFun] at h
  dsimp only at h
  split at h
  · cases h
    exact hmaxsize
  · cases h

section

variable {env : EncodeEnv} {cfg : HekaConfig} {t : Value}

theorem setMissing_failuresEffect (name : String) (value : Option Value) :
    HasEffect failuresEffect (setMissing env t name value) := by
  unfold setMissing
  apply (access_failuresEffect _).bind
  intro v
  split
  · exact access_failuresEffect _
  · exact HasEffect.pure ()

/-- Before the sections only the uuid can be left out. -/
theorem encodePrologue_failures_iff {s s1 : EncState} {ts : Int}
    (h : (encodePrologue env cfg t).run s = (Except.ok ts, s1)) :
    s1.failures = s.failures <->
      cfg.restrictedHeaders = true ∨ LimitHoldsUuid s.w.ob.maxsize := by
  have hclear : (write clearBuffer).run s = (Except.ok (), cleared s) := rfl
  unfold encodePrologue at h
  rw [Computation.run_bind_ok hclear] at h
  by_cases hcfg : cfg.restrictedHeaders = true
  · rw [if_pos hcfg] at h
    have heffect : HasEffect failuresEffect (do
        write (lsbWriteHekaUuid env.random none)
        setfield env t "Logger" (stringOrNil cfg.name)
        setfield env t "Hostname" (stringOrNil cfg.hostname)
        setfield env t "Pid" (integer cfg.pid)
        pure env.now) :=
      (write_failuresEffect _).bind (fun _ => (access_failuresEffect _).bind
        (fun _ => (access_failuresEffect _).bind (fun _ =>
          (access_failuresEffect _).bind (fun _ => HasEffect.pure _))))
    exact iff_of_true (heffect.done h) (Or.inl hcfg)
  rw [if_neg hcfg] at h
  rcases Computation.run_bind_eq_ok h with ⟨u, t1, hget, h⟩
  rcases Computation.run_bind_eq_ok h with ⟨r, t2, hwrite, h⟩
  have hrest : HasEffect failuresEffect (do
      let timestamp <- getfield env t "Timestamp"
      setMissingHeaders env cfg t
      pure (timestampOf env timestamp)) :=
    (access_failuresEffect _).bind (fun _ =>
      ((setMissing_failuresEffect _ _).bind (fun _ =>
        (setMissing_failuresEffect _ _).bind (fun _ =>
          setMissing_failuresEffect _ _))).bind (fun _ => HasEffect.pure _))
  have hfailures := hrest.done h
  have hattempt := attempt_write_failures hwrite
  have hlimit : Fits (MessageContent.uuidPiece
      (uuidBytes env.random (u.tostring env.fmt))) (cleared t1).w <->
        LimitHoldsUuid s.w.ob.maxsize := by
    rw [fits_uuid_iff rfl]
    change LimitHoldsUuid t1.w.ob.maxsize <-> _
    rw [getfield_maxsize hget]
    rfl
  have hstart : t1.failures = (cleared s).failures :=
    (access_failuresEffect _).done hget
  have hend : s1.failures = s.failures ++ r.toList := by
    rw [hstart] at hattempt
    exact Eq.trans hfailures hattempt
  rw [hend, or_iff_right hcfg, ← hlimit]
  rcases writeUuid_cases env.random (u.tostring env.fmt) t1 with
    ⟨t', hrun, _, _, hfits⟩ | ⟨e, t', hrun, _, _, hfull⟩
  · rw [run_attempt_ok hrun] at hwrite
    cases hwrite
    exact iff_of_true (List.append_nil _) hfits
  · rw [run_attempt_err hrun] at hwrite
    cases hwrite
    refine iff_of_false ?_ hfull
    intro hsame
    have hlength := congrArg List.length hsame
    rw [List.length_append] at hlength
    change _ + 1 = _ at hlength
    omega

/-!
## Whole messages
-/

/-- A normal end comes from the prologue and the sections. -/
theorem run_eq_ok {fuel : Nat} {below : Value} {s s1 : EncState}
    (h : (hekaEncodeMessageTable env cfg fuel below t).run s =
      (Except.ok (), s1)) :
    exists ts t1 t2, (encodePrologue env cfg t).run s = (Except.ok ts, t1) ∧
      (encodeSections env fuel ts below t).run t1 = (Except.ok (), t2) ∧
      s1 = terminated t2 := by
  generalize hprologue : (encodePrologue env cfg t).run s = x
  rcases x with ⟨stop | ts, t1⟩
  · rw [run_hekaEncodeMessageTable_prologue hprologue] at h
    cases h
  generalize hsections : (encodeSections env fuel ts below t).run t1 = y
  rcases y with ⟨stop | a, t2⟩
  · cases stop with
    | err e =>
        rw [run_hekaEncodeMessageTable_err hprologue hsections] at h
        cases h
    | raised v | depth =>
        rw [run_hekaEncodeMessageTable_stop hprologue hsections nofun] at h
        cases h
  · rw [run_hekaEncodeMessageTable_ok hprologue hsections] at h
    cases h
    exact ⟨ts, t1, t2, rfl, hsections, rfl⟩

/-- What was encoded is a message, with the outcome of that message. -/
theorem message_of_run (hquiet : env.plugin.Quiet) {fuel : Nat}
    {below : Value} {s s1 : EncState}
    (h : (hekaEncodeMessageTable env cfg fuel below t).run s =
      (Except.ok (), s1)) :
    exists m L', MessageReads env cfg below t s.lua m L' ∧
      MessageOutcome cfg m L' (cleared s).w (Except.ok (), s1) := by
  rcases run_eq_ok h with ⟨ts, t1, t2, hprologue, hsections, _⟩
  rcases prologue_of_run hquiet hprologue with ⟨uuid, hreads⟩
  rcases sections_of_run hquiet (uuidBytes_length env.random uuid) hsections
    with ⟨m, huuid, hts, hrecords, hencode⟩
  subst hts
  have houtcome := message_outcome hreads huuid hencode rfl
  rw [h] at houtcome
  exact ⟨m, t2.lua, ⟨uuid, t1.lua, hreads, huuid, hrecords⟩, houtcome⟩

theorem contents_of_emitted {c : Piece} {s s1 : EncState}
    (h : Emitted c (cleared s).w s1.w) : s1.w.ob.contents = c.bytes := by
  rw [h.contents]
  exact List.nil_append _

theorem piece_bytes_length (m : MessageContent) :
    18 <= m.piece.bytes.length := by
  have huuid : (MessageContent.uuidPiece m.uuid).bytes.length = 18 := by
    change (_ :: _ :: m.uuid).length = 18
    rw [List.length_cons, List.length_cons, m.uuid_length]
    rfl
  unfold MessageContent.piece
  rw [Piece.bytes_append, Piece.bytes_append, List.length_append,
    List.length_append, huuid]
  omega

variable (env cfg)

end

/-!
An empty table in a buffer of 17 bytes: the message has no uuid.
-/

end Heka
end LuaSandbox
