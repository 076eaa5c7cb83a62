import LuaSandbox.Heka.EncodeEffect

/-!
# The bounds of encoding

Every write of the encoder stays in the output buffer, but the NUL that is put
behind a message when a section of it fails and the buffer is full.
-/

namespace LuaSandbox
namespace Heka

open Foundation
open Lua
open Util
open Core

/-!
## Writers
-/

/-- The writes of a computation are in bounds. -/
def AppendsInBounds (s t : WriteState) : Prop :=
  exists ws, t.writes = s.writes ++ ws ∧ forall w, w ∈ ws -> w.InBounds

theorem appendsInBounds_refl (s : WriteState) : AppendsInBounds s s :=
  ⟨[], (List.append_nil _).symm, fun _ h => absurd h List.not_mem_nil⟩

theorem appendsInBounds_trans (s t u : WriteState)
    (hst : AppendsInBounds s t) (htu : AppendsInBounds t u) :
    AppendsInBounds s u := by
  rcases hst with ⟨ws, ht, hws⟩
  rcases htu with ⟨ws', hu, hws'⟩
  refine ⟨ws ++ ws', ?_, ?_⟩
  · rw [hu, ht, List.append_assoc]
  · exact List.forall_mem_append.mpr ⟨hws, hws'⟩

theorem appendsInBounds_of_writes_eq {s t : WriteState}
    (h : t.writes = s.writes) : AppendsInBounds s t :=
  ⟨[], by rw [h, List.append_nil], fun _ h => absurd h List.not_mem_nil⟩

theorem appendsInBounds_one {s t : WriteState} {w : Write}
    (h : t.writes = s.writes ++ [w]) (hw : w.InBounds) :
    AppendsInBounds s t :=
  ⟨[w], h, fun _ hmem => List.mem_singleton.mp hmem ▸ hw⟩

def boundsEffect : Effect WriteState :=
  Effect.ofRelation AppendsInBounds appendsInBounds_refl
    appendsInBounds_trans

theorem put_boundsEffect (needed : Nat) (xs : List UInt8)
    (h : xs.length <= needed) : HasEffect boundsEffect (put needed xs h) := by
  apply HasEffect.ofRun
  intro s
  unfold put
  rw [Computation.run_ofFun]
  split
  · exact appendsInBounds_refl s
  · rename_i r _
    exact appendsInBounds_one rfl
      (Nat.le_trans (Nat.add_le_add_left h _) r.property)

theorem expand_boundsEffect (needed : Nat) :
    HasEffect boundsEffect (expand needed) := by
  apply HasEffect.ofRun
  intro s
  unfold expand
  rw [Computation.run_ofFun]
  split
  · exact appendsInBounds_refl s
  · exact appendsInBounds_of_writes_eq rfl

/-- The room that `expand` has made. -/
theorem expand_room {needed : Nat} {s t : WriteState} {a : Unit}
    (h : (expand needed).run s = (Except.ok a, t)) :
    t.ob.pos + needed <= t.ob.size := by
  unfold expand at h
  rw [Computation.run_ofFun] at h
  split at h
  · cases h
  · rename_i r _
    cases h
    exact r.property

/-- The length is put in front of the position, and the bytes behind it are
moved into the new room. -/
theorem lsbPbUpdateFieldLength_boundsEffect (lenPos : Nat) :
    HasEffect boundsEffect (lsbPbUpdateFieldLength lenPos) := by
  apply HasEffect.ofRun
  intro s
  have hpos := s.ob.pos_le
  unfold lsbPbUpdateFieldLength
  rw [Computation.run_ofFun]
  split
  · exact appendsInBounds_refl s
  unfold putFieldLength
  rw [Computation.run_ofFun]
  dsimp only
  split
  · apply appendsInBounds_one rfl
    change lenPos + 1 <= s.ob.size
    omega
  split
  · exact appendsInBounds_refl s
  · rename_i hlarge r hexpand
    have hkept := (lsbExpandOutputBuffer_kept hexpand).2.1
    have hroom := r.property
    have hcount := varintCount_eq_length
      (i := s.ob.pos - lenPos - 1) (by omega)
    rw [hkept] at hroom
    refine ⟨_, List.append_assoc _ _ _, ?_⟩
    rw [List.singleton_append, List.forall_mem_cons, List.forall_mem_cons]
    refine ⟨?_, ?_, fun _ h => absurd h List.not_mem_nil⟩
    · change lenPos + varintCount lsbMaxVarintBytes
        (s.ob.pos - lenPos - 1) + (s.ob.pos - lenPos - 1) <= r.val.size
      omega
    · change lenPos + (lsbPbOutputVarint _).length <= r.val.size
      omega

/-- The NUL behind a string has its room. -/
theorem lsbOutputs_boundsEffect (xs : List UInt8) :
    HasEffect boundsEffect (lsbOutputs xs) := by
  apply HasEffect.ofRun
  intro s
  rw [run_lsbOutputs]
  split
  · exact appendsInBounds_refl s
  · rename_i r _
    have hroom := r.property
    refine ⟨_, rfl, ?_⟩
    rw [List.forall_mem_cons, List.forall_mem_cons]
    refine ⟨?_, ?_, fun _ h => absurd h List.not_mem_nil⟩
    · change r.val.pos + xs.length <= r.val.size
      omega
    · change r.val.pos + xs.length + 1 <= r.val.size
      omega

theorem lsbWriteHekaUuid_boundsEffect (random : Nat -> UInt8)
    (uuid : Option (List UInt8)) :
    HasEffect boundsEffect (lsbWriteHekaUuid random uuid) := by
  have hclear : HasEffect boundsEffect clearBuffer :=
    HasEffect.ofRun (fun s => appendsInBounds_of_writes_eq rfl)
  exact hclear.bind (fun _ => put_boundsEffect _ _ _)

/-!
## Encoders
-/

def encodeBoundsEffect : Effect EncState :=
  Effect.ofRelation (fun s t => AppendsInBounds s.w t.w)
    (fun s => appendsInBounds_refl s.w)
    (fun s t u => appendsInBounds_trans s.w t.w u.w)

theorem write_encodeBoundsEffect {α : Type} {x : Writer α}
    (h : HasEffect boundsEffect x) :
    HasEffect encodeBoundsEffect (write x) := by
  apply HasEffect.ofRun
  intro s
  unfold write
  rw [Computation.run_ofFun]
  split
  · rename_i hx
    exact h.done hx
  · rename_i hx
    exact h.failed hx

theorem access_encodeBoundsEffect {α : Type}
    (f : LuaState -> OutputBuffer -> Accessed α) :
    HasEffect encodeBoundsEffect (access f) := by
  apply HasEffect.ofRun
  intro s
  unfold access
  rw [Computation.run_ofFun]
  generalize f s.lua s.w.ob = x
  rcases x with ⟨v | a, L, ob⟩
  · exact appendsInBounds_of_writes_eq rfl
  · exact appendsInBounds_of_writes_eq rfl

theorem failWith_encodeBoundsEffect {α : Type} (message : List UInt8)
    (e : LsbErr) :
    HasEffect encodeBoundsEffect (failWith message e : Enc α) :=
  HasEffect.ofRun (fun s => appendsInBounds_refl s.w)

theorem attempt_encodeBoundsEffect {x : Enc Unit}
    (h : HasEffect encodeBoundsEffect x) :
    HasEffect encodeBoundsEffect (attempt x) := by
  apply HasEffect.ofRun
  intro s
  unfold attempt
  rw [Computation.run_ofFun]
  split
  · rename_i hx
    exact h.done hx
  · rename_i hx
    exact h.failed hx
  · rename_i hx
    exact h.failed hx

theorem steps_encodeBoundsEffect (env : EncodeEnv) :
    StepsHaveEffect env encodeBoundsEffect where
  put needed xs h := write_encodeBoundsEffect (put_boundsEffect needed xs h)
  update lenPos :=
    write_encodeBoundsEffect (lsbPbUpdateFieldLength_boundsEffect lenPos)
  expand := write_encodeBoundsEffect (expand_boundsEffect 1)
  outputs s message e := by
    have hwrite := attempt_encodeBoundsEffect
      (write_encodeBoundsEffect (lsbOutputs_boundsEffect s))
    apply hwrite.bind
    intro r
    split
    · exact failWith_encodeBoundsEffect message e
    · exact HasEffect.pure ()
  getfield t name := access_encodeBoundsEffect _
  next f k := access_encodeBoundsEffect _
  failWith message e := failWith_encodeBoundsEffect message e
  depth := HasEffect.ofRun (fun s => appendsInBounds_refl s.w)

/-!
## The terminator
-/

section

variable (env : EncodeEnv) (cfg : HekaConfig) (fuel : Nat) (below t : Value)

/-- A section fails when the buffer has no room for one more byte. -/
def FailsWhenFull (s : EncState) : Prop :=
  exists ts s1 e s2,
    (encodePrologue env cfg t).run s = (Except.ok ts, s1) ∧
      (encodeSections env fuel ts below t).run s1 =
        (Except.error (Stop.err e), s2) ∧
      s2.w.ob.pos = s2.w.ob.size

theorem setfield_encodeBoundsEffect (name : String) (value : Value) :
    HasEffect encodeBoundsEffect (setfield env t name value) :=
  access_encodeBoundsEffect _

theorem setMissing_encodeBoundsEffect (name : String)
    (value : Option Value) :
    HasEffect encodeBoundsEffect (setMissing env t name value) := by
  unfold setMissing
  apply (access_encodeBoundsEffect _).bind
  intro v
  split
  · exact setfield_encodeBoundsEffect env t name _
  · exact HasEffect.pure ()

theorem encodePrologue_boundsEffect :
    HasEffect encodeBoundsEffect (encodePrologue env cfg t) := by
  have hclear : HasEffect encodeBoundsEffect (write clearBuffer) :=
    write_encodeBoundsEffect
      (HasEffect.ofRun (fun s => appendsInBounds_of_writes_eq rfl))
  have huuid (uuid : Option (List UInt8)) : HasEffect encodeBoundsEffect
      (write (lsbWriteHekaUuid env.random uuid)) :=
    write_encodeBoundsEffect (lsbWriteHekaUuid_boundsEffect env.random uuid)
  have hset := setfield_encodeBoundsEffect env t
  unfold encodePrologue
  apply hclear.bind
  intro _
  apply HasEffect.ite
  · exact (huuid none).bind (fun _ => (hset _ _).bind (fun _ =>
      (hset _ _).bind (fun _ => (hset _ _).bind
        (fun _ => HasEffect.pure _))))
  · have hmissing := setMissing_encodeBoundsEffect env t
    have hheaders : HasEffect encodeBoundsEffect (setMissingHeaders env cfg t) :=
      (hmissing _ _).bind (fun _ => (hmissing _ _).bind
        (fun _ => hmissing _ _))
    exact (access_encodeBoundsEffect _).bind (fun _ =>
      (attempt_encodeBoundsEffect (huuid _)).bind (fun _ =>
        (access_encodeBoundsEffect _).bind (fun _ =>
          hheaders.bind (fun _ => HasEffect.pure _))))

/-- Sections that end leave room for one more byte. -/
theorem encodeSections_room {ts : Int} {s u : EncState}
    (h : (encodeSections env fuel ts below t).run s = (Except.ok (), u)) :
    u.w.ob.pos + 1 <= u.w.ob.size := by
  rcases Computation.run_bind_eq_ok h with ⟨_, s1, _, hwrite⟩
  unfold write at hwrite
  rw [Computation.run_ofFun] at hwrite
  split at hwrite
  · rename_i hexpand
    cases hwrite
    exact expand_room hexpand
  · cases hwrite

variable {env cfg fuel below t} {ts : Int} {s s1 s2 : EncState}

theorem failsWhenFull_iff {e : LsbErr}
    (hprologue : (encodePrologue env cfg t).run s = (Except.ok ts, s1))
    (hsections : (encodeSections env fuel ts below t).run s1 =
      (Except.error (Stop.err e), s2)) :
    FailsWhenFull env cfg fuel below t s <->
      s2.w.ob.pos = s2.w.ob.size := by
  constructor
  · rintro ⟨ts', s1', e', s2', hok, herr, hfull⟩
    rw [hprologue] at hok
    cases hok
    rw [hsections] at herr
    cases herr
    exact hfull
  · intro hfull
    exact ⟨ts, s1, e, s2, hprologue, hsections, hfull⟩

theorem not_failsWhenFull {r : Except Stop Unit}
    (hprologue : (encodePrologue env cfg t).run s = (Except.ok ts, s1))
    (hsections : (encodeSections env fuel ts below t).run s1 = (r, s2))
    (hr : forall e, r ≠ Except.error (Stop.err e)) :
    ¬ FailsWhenFull env cfg fuel below t s := by
  rintro ⟨ts', s1', e, s2', hok, herr, _⟩
  rw [hprologue] at hok
  cases hok
  rw [hsections] at herr
  cases herr
  exact hr e rfl

variable (env cfg fuel below t)

/-- The writes of a message table are in bounds, but for the NUL behind a
message that fills the buffer. -/
theorem hekaEncodeMessageTable_inBounds_iff (L : LuaState)
    (ob : OutputBuffer) (alloc : Nat -> Bool) (errorMessage : List UInt8) :
    (forall w, w ∈ ((hekaEncodeMessageTable env cfg fuel below t).run
        (EncState.start L ob alloc errorMessage)).2.w.writes -> w.InBounds) <->
      ¬ FailsWhenFull env cfg fuel below t
        (EncState.start L ob alloc errorMessage) := by
  generalize hs : EncState.start L ob alloc errorMessage = s
  have hempty : s.w.writes = [] := by
    rw [← hs]
    rfl
  have hinBounds {u : EncState} (h : AppendsInBounds s.w u.w) :
      forall w, w ∈ u.w.writes -> w.InBounds := by
    rcases h with ⟨ws, hws, hall⟩
    rw [hws, hempty]
    exact hall
  have hprologue := encodePrologue_boundsEffect env cfg t
  have hsteps := steps_encodeBoundsEffect env
  generalize hrun : (encodePrologue env cfg t).run s = x
  rcases x with ⟨stop | ts, s1⟩
  · rw [run_hekaEncodeMessageTable_prologue hrun]
    constructor
    · rintro _ ⟨ts', s1', e, s2, hok, _⟩
      rw [hrun] at hok
      cases hok
    · intro _
      exact hinBounds (hprologue.failed hrun)
  have hsections := hsteps.encodeSections fuel ts below t
  have hs1 : AppendsInBounds s.w s1.w := hprologue.done hrun
  generalize hrun' : (encodeSections env fuel ts below t).run s1 = x
  have hterminated {u : EncState} (h : AppendsInBounds s1.w u.w) :
      (forall w, w ∈ (terminated u).w.writes -> w.InBounds) <->
        u.w.ob.pos + 1 <= u.w.ob.size := by
    have hu := hinBounds (appendsInBounds_trans _ _ _ hs1 h)
    change (forall w, w ∈ u.w.writes ++ [_] -> _) <-> _
    rw [List.forall_mem_append, List.forall_mem_singleton]
    exact and_iff_right hu
  rcases x with ⟨stop | a, s2⟩
  · have happends : AppendsInBounds s1.w s2.w := hsections.failed hrun'
    cases stop with
    | err e =>
        rw [run_hekaEncodeMessageTable_err hrun hrun', hterminated happends]
        rw [failsWhenFull_iff hrun hrun']
        have hpos := s2.w.ob.pos_le
        omega
    | raised v | depth =>
        rw [run_hekaEncodeMessageTable_stop hrun hrun' nofun]
        exact iff_of_true
          (hinBounds (appendsInBounds_trans _ _ _ hs1 happends))
          (not_failsWhenFull hrun hrun' nofun)
  · rw [run_hekaEncodeMessageTable_ok hrun hrun',
      hterminated (hsections.done hrun')]
    exact iff_of_true (encodeSections_room env fuel below t hrun')
      (not_failsWhenFull hrun hrun' nofun)

end

/-!
The smallest such message: the uuid fills the buffer, and the next key does not
fit.
-/

instance (w : Write) : Decidable w.InBounds :=
  inferInstanceAs (Decidable (w.first + w.count <= w.size))

/-- Tables without entries and no metatables. -/
def emptyState : LuaState :=
  ⟨fun _ => LuaTable.empty, fun _ => none⟩

/-- A plugin without Lua functions. -/
def noFunctions : Plugin where
  call _ _ L ob := (CallResult.returned [], L, ob)
  output _ _ := none
  call_maxsize _ _ _ _ := rfl

def sampleEnv : EncodeEnv where
  fmt := ⟨fun _ => [], fun _ => none⟩
  plugin := noFunctions
  now := 0
  random _ := 0

theorem hekaEncodeMessageTable_overrun :
    ¬ forall w, w ∈ ((hekaEncodeMessageTable sampleEnv
        ⟨some (ascii "x"), some (ascii "h"), 1, true, by decide⟩ 1 Value.nil
        (Value.table 0)).run (EncState.start emptyState
          (lsbInitOutputBuffer (fun _ => 0) 18) (fun _ => true)
          [])).2.w.writes -> w.InBounds := by
  decide

end Heka
end LuaSandbox
