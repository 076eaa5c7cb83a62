import LuaSandbox.Heka.BareMessage
import LuaSandbox.Heka.EncodeComplete
import LuaSandbox.Util.OutputText

/-!
# The buffer under an encoder

An encoder never changes the limit of its buffer, and behind the uuid it only
adds to the contents, if the Lua functions of the plugin leave the buffer
alone.
-/

namespace LuaSandbox
namespace Heka

open Foundation
open Lua
open Util
open Core

/-!
## Writers
-/

/-- The limit stays, and the position does not go back. -/
def Grown (b c : OutputBuffer) : Prop :=
  c.maxsize = b.maxsize ∧ b.pos <= c.pos

theorem Grown.refl (b : OutputBuffer) : Grown b b :=
  ⟨rfl, Nat.le_refl _⟩

theorem Grown.trans {a b c : OutputBuffer} (hab : Grown a b)
    (hbc : Grown b c) : Grown a c :=
  ⟨hbc.1.trans hab.1, Nat.le_trans hab.2 hbc.2⟩

theorem put_grown (needed : Nat) (xs : List UInt8)
    (h : xs.length <= needed) (s : WriteState) :
    Grown s.ob ((put needed xs h).run s).2.ob := by
  unfold put
  rw [Computation.run_ofFun]
  split
  · exact Grown.refl _
  · rename_i r hexpand
    have hkept := lsbExpandOutputBuffer_kept hexpand
    refine ⟨hkept.2.2, ?_⟩
    change s.ob.pos <= r.val.pos + xs.length
    rw [hkept.2.1]
    exact Nat.le_add_right _ _

theorem expand_grown (needed : Nat) (s : WriteState) :
    Grown s.ob ((expand needed).run s).2.ob := by
  unfold expand
  rw [Computation.run_ofFun]
  split
  · exact Grown.refl _
  · rename_i r hexpand
    have hkept := lsbExpandOutputBuffer_kept hexpand
    exact ⟨hkept.2.2, Nat.le_of_eq hkept.2.1.symm⟩

theorem lsbPbUpdateFieldLength_grown (lenPos : Nat) (s : WriteState) :
    Grown s.ob ((lsbPbUpdateFieldLength lenPos).run s).2.ob := by
  unfold lsbPbUpdateFieldLength
  rw [Computation.run_ofFun]
  split
  · exact Grown.refl _
  unfold putFieldLength
  rw [Computation.run_ofFun]
  dsimp only
  split
  · exact Grown.refl _
  split
  · exact Grown.refl _
  · rename_i r hexpand
    have hkept := lsbExpandOutputBuffer_kept hexpand
    refine ⟨hkept.2.2, ?_⟩
    change s.ob.pos <= r.val.pos + _
    rw [hkept.2.1]
    exact Nat.le_add_right _ _

theorem lsbOutputs_grown (xs : List UInt8) (s : WriteState) :
    Grown s.ob ((lsbOutputs xs).run s).2.ob := by
  rw [run_lsbOutputs]
  split
  · exact Grown.refl _
  · rename_i r hexpand
    have hkept := lsbExpandOutputBuffer_kept hexpand
    refine ⟨hkept.2.2, ?_⟩
    change s.ob.pos <= r.val.pos + xs.length
    rw [hkept.2.1]
    exact Nat.le_add_right _ _

/-!
## Encoders
-/

/-- A relation that every writer keeps. -/
structure KeptByWriters (R : OutputBuffer -> OutputBuffer -> Prop) :
    Prop where
  trans : forall a b c, R a b -> R b c -> R a c
  grown : forall b c, Grown b c -> R b c

namespace KeptByWriters

variable {R : OutputBuffer -> OutputBuffer -> Prop} (h : KeptByWriters R)

def effect : Effect EncState :=
  Effect.ofRelation (fun s t => R s.w.ob t.w.ob)
    (fun s => h.grown _ _ (Grown.refl s.w.ob))
    (fun s t u => h.trans s.w.ob t.w.ob u.w.ob)

theorem write {α : Type} {x : Writer α}
    (hx : forall s, R s.ob (x.run s).2.ob) :
    HasEffect h.effect (Heka.write x) := by
  apply HasEffect.ofRun
  intro s
  have hrun := hx s.w
  unfold Heka.write
  rw [Computation.run_ofFun]
  split
  · rename_i heq
    rw [heq] at hrun
    exact hrun
  · rename_i heq
    rw [heq] at hrun
    exact hrun

theorem attempt {x : Enc Unit} (hx : HasEffect h.effect x) :
    HasEffect h.effect (Heka.attempt x) := by
  apply HasEffect.ofRun
  intro s
  unfold Heka.attempt
  rw [Computation.run_ofFun]
  split
  · rename_i heq
    exact hx.done heq
  · rename_i heq
    exact hx.failed heq
  · rename_i heq
    exact hx.failed heq

theorem access {α : Type} {f : LuaState -> OutputBuffer -> Accessed α}
    (hf : forall L ob, R ob (f L ob).2.2) :
    HasEffect h.effect (Heka.access f) := by
  apply HasEffect.ofRun
  intro s
  have hrun := hf s.lua s.w.ob
  unfold Heka.access
  rw [Computation.run_ofFun]
  generalize f s.lua s.w.ob = x at hrun
  rcases x with ⟨v | a, L, ob⟩
  · exact hrun
  · exact hrun

theorem failWith {α : Type} (message : List UInt8) (e : LsbErr) :
    HasEffect h.effect (Heka.failWith message e : Enc α) :=
  HasEffect.ofRun (fun s => h.grown _ _ (Grown.refl s.w.ob))

theorem steps {env : EncodeEnv}
    (hget : forall t name, HasEffect h.effect (getfield env t name)) :
    StepsHaveEffect env h.effect where
  put needed xs hxs :=
    h.write (fun s => h.grown _ _ (put_grown needed xs hxs s))
  update lenPos :=
    h.write (fun s => h.grown _ _ (lsbPbUpdateFieldLength_grown lenPos s))
  expand := h.write (fun s => h.grown _ _ (expand_grown 1 s))
  outputs s message e := by
    have hwrite := h.attempt
      (h.write (fun w => h.grown _ _ (lsbOutputs_grown s w)))
    apply hwrite.bind
    intro r
    split
    · exact h.failWith message e
    · exact HasEffect.pure ()
  getfield := hget
  next f k := h.access (fun _ ob => h.grown _ _ (Grown.refl ob))
  failWith message e := h.failWith message e
  depth := HasEffect.ofRun (fun s => h.grown _ _ (Grown.refl s.w.ob))

end KeptByWriters

/-!
## The limit
-/

theorem setMetamethod_maxsize (P : Plugin) (tm : Value) (args : List Value)
    (L : LuaState) (ob : OutputBuffer) :
    (match callMetamethod P tm args L ob with
      | (Except.error v, L, ob) => (Except.error v, L, ob)
      | (Except.ok _, L, ob) =>
          ((Except.ok () : Except Value Unit), L, ob)).2.2.maxsize =
      ob.maxsize := by
  have hcall := callMetamethod_maxsize P tm args L ob
  generalize callMetamethod P tm args L ob = x at hcall
  rcases x with ⟨v | v, L', ob'⟩
  · exact hcall
  · exact hcall

theorem settable_maxsize (P : Plugin) (name : List UInt8) (value : Value)
    (L : LuaState) (ob : OutputBuffer) (n : Nat) :
    forall t, (settable P name value L ob n t).2.2.maxsize = ob.maxsize := by
  induction n with
  | zero =>
      intro t
      rfl
  | succ n ih =>
      intro t
      have hcall := setMetamethod_maxsize P
        (L.metamethod t (ascii "__newindex")) [t, Value.string name, value] L
        ob
      have hrest := ih (L.metamethod t (ascii "__newindex"))
      unfold settable
      cases t with
      | table a => exact maxsize_ite rfl (maxsize_ite hcall hrest)
      | nil | boolean | lightuserdata | number | string | function
      | cfunction | userdata | thread =>
          exact maxsize_ite rfl (maxsize_ite hcall hrest)

theorem keptByWriters_limit :
    KeptByWriters (fun b c => c.maxsize = b.maxsize) where
  trans _ _ _ hab hbc := hbc.trans hab
  grown _ _ h := h.1

theorem keptByWriters_grown : KeptByWriters Grown where
  trans _ _ _ := Grown.trans
  grown _ _ h := h

section

variable {env : EncodeEnv} {cfg : HekaConfig} {fuel : Nat}
  {below t : Value} {s : EncState}

/-- The limit effect of the whole encoder. -/
abbrev limitEffect : Effect EncState := keptByWriters_limit.effect

theorem getfield_limitEffect (env : EncodeEnv) (t : Value) (name : String) :
    HasEffect limitEffect (getfield env t name) :=
  keptByWriters_limit.access
    (fun L ob => luaGetfield_maxsize env.plugin t (ascii name) L ob)

theorem setfield_limitEffect (env : EncodeEnv) (t : Value) (name : String)
    (v : Value) :
    HasEffect limitEffect (setfield env t name v) :=
  keptByWriters_limit.access
    (fun L ob => settable_maxsize env.plugin (ascii name) v L ob _ t)

theorem setMissing_limitEffect (env : EncodeEnv) (t : Value) (name : String)
    (value : Option Value) :
    HasEffect limitEffect (setMissing env t name value) := by
  unfold setMissing
  apply (getfield_limitEffect env t name).bind
  intro v
  split
  · exact setfield_limitEffect env t name _
  · exact HasEffect.pure ()

theorem clear_limitEffect : HasEffect limitEffect (write clearBuffer) :=
  keptByWriters_limit.write (fun _ => rfl)

theorem uuid_limitEffect (uuid : Option (List UInt8)) :
    HasEffect limitEffect (write (lsbWriteHekaUuid env.random uuid)) := by
  apply keptByWriters_limit.write
  intro w
  rw [run_lsbWriteHekaUuid]
  exact (put_grown _ _ _ _).1

theorem encodePrologue_limitEffect :
    HasEffect limitEffect (encodePrologue env cfg t) := by
  have hset := setfield_limitEffect env t
  have hmissing := setMissing_limitEffect env t
  unfold encodePrologue
  apply clear_limitEffect.bind
  intro _
  apply HasEffect.ite
  · exact (uuid_limitEffect none).bind (fun _ => (hset _ _).bind (fun _ =>
      (hset _ _).bind (fun _ => (hset _ _).bind
        (fun _ => HasEffect.pure _))))
  · have hheaders : HasEffect limitEffect (setMissingHeaders env cfg t) :=
      (hmissing _ _).bind (fun _ => (hmissing _ _).bind
        (fun _ => hmissing _ _))
    exact (getfield_limitEffect env t _).bind (fun _ =>
      (keptByWriters_limit.attempt (uuid_limitEffect _)).bind (fun _ =>
        (getfield_limitEffect env t _).bind (fun _ =>
          hheaders.bind (fun _ => HasEffect.pure _))))

/-- An encoder leaves the limit of the buffer as it is. -/
theorem hekaEncodeMessageTable_maxsize :
    ((hekaEncodeMessageTable env cfg fuel below t).run s).2.w.ob.maxsize =
      s.w.ob.maxsize := by
  have hsections := (keptByWriters_limit.steps
    (getfield_limitEffect env)).encodeSections fuel
  have hend : HasEffect limitEffect terminateMessage :=
    (HasEffect.read _).bind (fun _ =>
      keptByWriters_limit.write (fun _ => rfl))
  have heffect : HasEffect limitEffect
      (hekaEncodeMessageTable env cfg fuel below t) := by
    unfold hekaEncodeMessageTable
    apply encodePrologue_limitEffect.bind
    intro ts
    apply (keptByWriters_limit.attempt (hsections ts below t)).bind
    intro ret
    apply hend.bind
    intro _
    split
    · exact HasEffect.pure ()
    · exact HasEffect.ofRun (fun _ => rfl)
  generalize hrun : (hekaEncodeMessageTable env cfg fuel below t).run s = r
  rcases r with ⟨stop | a, e⟩
  · exact heffect.failed hrun
  · exact heffect.done hrun

/-!
## What a failure leaves
-/

theorem getfield_grown (hquiet : env.plugin.Quiet) (t : Value)
    (name : String) :
    HasEffect keptByWriters_grown.effect (getfield env t name) := by
  apply keptByWriters_grown.access
  intro L ob
  rcases luaGetfield_quiet hquiet t (ascii name) L with ⟨r, L', hget⟩
  rw [hget]
  exact Grown.refl ob

/-- The sections only add to the contents. -/
theorem encodeSections_grown (fuel : Nat) (below t : Value) (s : EncState)
    (hquiet : env.plugin.Quiet) (ts : Int) :
    Grown s.w.ob ((encodeSections env fuel ts below t).run s).2.w.ob := by
  have heffect := (keptByWriters_grown.steps
    (getfield_grown hquiet)).encodeSections fuel ts below t
  generalize hrun : (encodeSections env fuel ts below t).run s = r
  rcases r with ⟨stop | a, e⟩
  · exact heffect.failed hrun
  · exact heffect.done hrun

/-- A failure behind the prologue leaves at least what the sections have
written. -/
theorem pos_of_failure {ts : Int} {s1 e : EncState} {stop : Stop}
    (hprologue : (encodePrologue env cfg t).run s = (Except.ok ts, s1))
    (h : (hekaEncodeMessageTable env cfg fuel below t).run s =
      (Except.error stop, e)) :
    e.w.ob.pos =
      ((encodeSections env fuel ts below t).run s1).2.w.ob.pos := by
  generalize hsections : (encodeSections env fuel ts below t).run s1 = r
  rcases r with ⟨stop' | a, s2⟩
  · cases stop' with
    | err err =>
        rw [run_hekaEncodeMessageTable_err hprologue hsections] at h
        cases h
        rfl
    | raised v | depth =>
        rw [run_hekaEncodeMessageTable_stop hprologue hsections nofun] at h
        cases h
        rfl
  · rw [run_hekaEncodeMessageTable_ok hprologue hsections] at h
    cases h

/-- There is always room for the key of the timestamp. -/
theorem encodeSections_pos (fuel : Nat) (below t : Value)
    (hquiet : env.plugin.Quiet) (ts : Int)
    (hpos : s.w.ob.pos = 0) :
    0 < ((encodeSections env fuel ts below t).run s).2.w.ob.pos := by
  have hsize := s.w.ob.size_pos
  have hroom : s.w.ob.pos + 1 <= s.w.ob.size := by omega
  have hkey : exists s1, (write (lsbPbWriteKey lsbPbTimestamp
      lsbPbWtVarint)).run s = (Except.ok (), s1) ∧ s1.w.ob.pos = 1 := by
    unfold write lsbPbWriteKey
    rw [Computation.run_ofFun, run_put_room hroom]
    refine ⟨_, rfl, ?_⟩
    change s.w.ob.pos + 1 = 1
    rw [hpos]
  rcases hkey with ⟨s1, hkey, hone⟩
  have hsteps := keptByWriters_grown.steps (getfield_grown hquiet)
  have hrest : HasEffect keptByWriters_grown.effect (do
      (do
        write (lsbPbWriteVarint (ofLongLong ts))
        encodeString env lsbPbType "Type" t
        encodeString env lsbPbLogger "Logger" t
        encodeInt env lsbPbSeverity "Severity" t
        encodeString env lsbPbPayload "Payload" t
        encodeString env lsbPbEnvVersion "EnvVersion" t
        encodeInt env lsbPbPid "Pid" t
        encodeString env lsbPbHostname "Hostname" t
        encodeFields env fuel lsbPbFields "Fields" below t)
      write (expand 1)) :=
    ((hsteps.writeVarint _).bind (fun _ =>
      (hsteps.encodeString _ _ t).bind (fun _ =>
      (hsteps.encodeString _ _ t).bind (fun _ =>
      (hsteps.encodeInt _ _ t).bind (fun _ =>
      (hsteps.encodeString _ _ t).bind (fun _ =>
      (hsteps.encodeString _ _ t).bind (fun _ =>
      (hsteps.encodeInt _ _ t).bind (fun _ =>
      (hsteps.encodeString _ _ t).bind (fun _ =>
      hsteps.encodeFields fuel _ _ below t))))))))).bind
        (fun _ => hsteps.expand)
  unfold encodeSections encodeRecords
  rw [bind_assoc, Computation.run_bind_ok hkey]
  generalize hrun : Foundation.Computation.run _ s1 = r
  have hgrown : Grown s1.w.ob r.2.w.ob := by
    rcases r with ⟨stop | a, e⟩
    · exact hrest.failed hrun
    · exact hrest.done hrun
  exact Nat.lt_of_lt_of_le (by omega) hgrown.2

/-- An encoding of a table without a metatable that fails leaves nothing in the
buffer exactly if it has no room for the uuid that it has to write. -/
theorem residue_eq_nil_iff (hquiet : env.plugin.Quiet) {a : Nat}
    (hbare : s.lua.Bare a) {e : EncState} {stop : Stop}
    (h : (hekaEncodeMessageTable env cfg fuel below (Value.table a)).run s =
      (Except.error stop, e)) :
    e.w.ob.contents = [] <->
      cfg.restrictedHeaders = true ∧ ¬ LimitHoldsUuid s.w.ob.maxsize := by
  have hnil : e.w.ob.contents = [] <-> e.w.ob.pos = 0 := by
    rw [← e.w.ob.length_contents, List.length_eq_zero_iff]
  have huuid : Fits (MessageContent.uuidPiece (uuidBytes env.random
      (wantedUuid env cfg s.lua a))) (cleared s).w <->
        LimitHoldsUuid s.w.ob.maxsize :=
    fits_uuid_iff rfl
  have hreads : PrologueReads env cfg (Value.table a) s.lua
      (wantedUuid env cfg s.lua a) (wantedTimestamp env cfg s.lua a)
      (prepared cfg s.lua a) :=
    prologueReads_bare env hbare
  have houtcome := hreads.outcome rfl
  generalize hprologue : (encodePrologue env cfg (Value.table a)).run s = r
    at houtcome
  rw [hnil]
  cases houtcome with
  | written hlua hemitted hfits =>
      rename_i s1
      have hpos := pos_of_failure hprologue h
      have hgrown := encodeSections_grown fuel below (Value.table a) s1 hquiet
        (wantedTimestamp env cfg s.lua a)
      have hstart := hemitted.pos
      have hlength := uuidRecord_length env.random
        (wantedUuid env cfg s.lua a)
      have hle := hgrown.2
      refine iff_of_false (by omega) ?_
      rintro ⟨_, hsmall⟩
      exact hsmall (huuid.mp hfits)
  | dropped hcfg hlua hw hfull =>
      rename_i s1
      have hpos := pos_of_failure hprologue h
      have hstart : s1.w.ob.pos = 0 := by
        rw [hw]
        rfl
      have hone := encodeSections_pos fuel below (Value.table a) hquiet
        (wantedTimestamp env cfg s.lua a) hstart
      refine iff_of_false (by omega) ?_
      rintro ⟨htrue, _⟩
      rw [hcfg] at htrue
      cases htrue
  | failed hcfg hw hfull =>
      rw [run_hekaEncodeMessageTable_prologue hprologue] at h
      cases h
      rw [hw]
      exact iff_of_true rfl ⟨hcfg, fun hholds => hfull (huuid.mpr hholds)⟩

end

end Heka
end LuaSandbox
