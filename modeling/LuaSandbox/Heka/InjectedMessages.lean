import LuaSandbox.Heka.DecodersAgree
import LuaSandbox.Heka.PayloadSessions

/-!
# The messages that the host is handed

Every message was encoded without an error, so that it is decoded if the output
limit has room for its uuid; the statistics count those that the host accepted.
-/

namespace LuaSandbox
namespace Heka

open Foundation
open Lua
open Util
open Core

/-!
## The limit
-/

def outputLimitEffect : Effect WriteState :=
  Effect.ofRelation (fun s t => t.ob.maxsize = s.ob.maxsize) (fun _ => rfl)
    (fun _ _ _ hst htu => htu.trans hst)

theorem attemptWrite_limit {x : Writer Unit} {text : List UInt8}
    (h : WritesText x text) : HasEffect outputLimitEffect (attemptWrite x) := by
  apply HasEffect.ofRun
  intro s
  unfold attemptWrite
  rw [Computation.run_ofFun]
  generalize hrun : x.run s = r
  rcases r with ⟨e | u, t⟩
  · exact (h.kept hrun).maxsize
  · exact (h.emits.ok hrun).1.maxsize

theorem throw_limit {α : Type} (e : ApiError) :
    HasEffect outputLimitEffect (throw e : Output α) :=
  HasEffect.ofRun (fun _ => rfl)

section

variable (P : Plugin) (format : Double.Value -> List UInt8) (L : LuaState)

theorem outputValue_limit (i : Nat) (v : Value) :
    HasEffect outputLimitEffect (outputValue P format L i v) := by
  unfold outputValue
  cases v with
  | number d => exact attemptWrite_limit (writesText_outputd format d.value)
  | string xs => exact attemptWrite_limit (writesText_outputs xs)
  | nil => exact attemptWrite_limit (writesText_outputs _)
  | boolean b => exact attemptWrite_limit (writesText_outputf _)
  | userdata u =>
      dsimp only
      rcases P.output L (Value.userdata u) with _ | e | text
      · exact throw_limit _
      · exact HasEffect.pure _
      · exact attemptWrite_limit (writesText_outputs text)
  | table | function | cfunction | lightuserdata | thread =>
      exact throw_limit _

theorem outputValues_limit (args : List Value) :
    forall i, HasEffect outputLimitEffect (outputValues P format L i args) := by
  induction args with
  | nil =>
      intro i
      exact HasEffect.pure _
  | cons v vs ih =>
      intro i
      apply (outputValue_limit P format L i v).bind
      intro written
      exact HasEffect.ite (ih (i + 1)) (HasEffect.pure _)

theorem lsbOutputCoroutine_limit (errorMessage : List UInt8) (start : Nat)
    (args : List Value) (append : Bool) :
    HasEffect outputLimitEffect
      (lsbOutputCoroutine P format L errorMessage start args append) := by
  have hstart : HasEffect outputLimitEffect (startOutput append) := by
    apply HasEffect.ofRun
    intro s
    cases append <;> rfl
  apply hstart.bind
  intro _
  apply (outputValues_limit P format L args start).bind
  intro written
  exact HasEffect.ite (HasEffect.pure _) (throw_limit _)

end

section

variable (env : InjectEnv)

/-- Only the buffer changes, and its limit does not. -/
theorem output_keeps (start : Nat) (args : List Value) (s : Injector) :
    exists r ob, (output env start args).run s = (r, { s with ob := ob }) ∧
      ob.maxsize = s.ob.maxsize := by
  have heffect := lsbOutputCoroutine_limit env.encode.plugin env.format s.lua
    s.errorMessage start args true
  unfold output
  rw [Computation.run_ofFun]
  generalize hrun : (lsbOutputCoroutine env.encode.plugin env.format s.lua
    s.errorMessage start args true).run ⟨s.ob, env.alloc, []⟩ = r
  rcases r with ⟨e | u, w⟩
  · exact ⟨_, w.ob, rfl, heffect.failed hrun⟩
  · exact ⟨_, w.ob, rfl, heffect.done hrun⟩

/-!
## Calls
-/

/-- A call hands over nothing, or one message that was encoded without an
error. -/
inductive Hands (env : InjectEnv) (s : Injector) : Injector -> Prop where
  | none {s' : Injector} :
      s'.ob.maxsize = s.ob.maxsize ->
      s'.injected = s.injected ->
      s'.imCnt = s.imCnt ->
      s'.imBytes = s.imBytes ->
      Hands env s s'
  | one {s₁ : Injector} {rv args e} :
      s₁.ob.maxsize = s.ob.maxsize ->
      s₁.injected = s.injected ->
      s₁.imCnt = s.imCnt ->
      s₁.imBytes = s.imBytes ->
      (encodeArgument env args).run (s₁.start env) = (Except.ok (), e) ->
      Hands env s ((s₁.encoded e).called rv)

theorem outputRest_keeps (args : List Value) (s : Injector) :
    exists r ob, (outputRest env args).run s = (r, { s with ob := ob }) ∧
      ob.maxsize = s.ob.maxsize := by
  unfold outputRest
  split
  · exact output_keeps env 3 (args.drop 2) s
  · exact ⟨_, s.ob, rfl, rfl⟩

variable {env}

theorem encodeArgument_maxsize {s : Injector} {args : List Value}
    {r : Except Stop Unit} {e : EncState}
    (h : (encodeArgument env args).run (s.start env) = (r, e)) :
    e.w.ob.maxsize = s.ob.maxsize := by
  have hmaxsize : ((encodeArgument env args).run
      (s.start env)).2.w.ob.maxsize = s.ob.maxsize :=
    hekaEncodeMessageTable_maxsize
  rwa [h] at hmaxsize

theorem injectMessage_hands (rv : Int) (args : List Value) {s₁ s : Injector}
    (hmaxsize : s₁.ob.maxsize = s.ob.maxsize)
    (hinjected : s₁.injected = s.injected) (hcnt : s₁.imCnt = s.imCnt)
    (hbytes : s₁.imBytes = s.imBytes) :
    Hands env s ((injectMessageAnalysis env rv args).run s₁).2 := by
  by_cases htable : typeAt args 1 = LuaType.table
  · generalize hrun : (encodeArgument env args).run (s₁.start env) = r
    rcases r with ⟨stop | u, e⟩
    · rcases injectMessage_error rv htable hrun with ⟨err, hcall⟩
      rw [hcall]
      exact Hands.none ((encodeArgument_maxsize hrun).trans hmaxsize)
        hinjected hcnt hbytes
    · rcases injectMessage_ok rv htable hrun with ⟨r, hcall, _⟩
      rw [hcall]
      exact Hands.one hmaxsize hinjected hcnt hbytes hrun
  · rcases injectMessage_refused env rv htable (s := s₁) with ⟨e, hcall⟩
    rw [hcall]
    exact Hands.none hmaxsize hinjected hcnt hbytes

theorem encodeMessage_hands (args : List Value) (s : Injector) :
    Hands env s ((hekaEncodeMessage env args).run s).2 := by
  by_cases hargs : EncodeArguments args
  · generalize hrun : (encodeArgument env args).run (s.start env) = r
    rcases r with ⟨stop | u, e⟩
    · rcases encodeMessage_error hargs hrun with ⟨err, hcall⟩
      rw [hcall]
      exact Hands.none (encodeArgument_maxsize hrun) rfl rfl rfl
    · rw [encodeMessage_ok hargs hrun]
      exact Hands.none (encodeArgument_maxsize hrun) rfl rfl rfl
  · rcases encodeMessage_refused env hargs (s := s) with ⟨e, hcall⟩
    rw [hcall]
    exact Hands.none rfl rfl rfl rfl

theorem injectPayload_hands (rv : Int) (new : NewTables) (args : List Value)
    (s : Injector) :
    Hands env s ((injectPayload env rv new args).run s).2 := by
  by_cases hvalid : ValidNames args
  · rcases run_checkNames args s with ⟨r, hcheck, hiff⟩
    rw [hiff.mpr hvalid] at hcheck
    rcases outputRest_keeps env args s with
      ⟨r', ob, hrest, hmaxsize⟩
    unfold injectPayload
    rw [Computation.run_bind_ok hcheck]
    rcases r' with err | u
    · rw [Computation.run_bind_error hrest]
      exact Hands.none hmaxsize rfl rfl rfl
    · have htake : lsbGetOutput.run { s with ob := ob } =
          (Except.ok (ob.buf, ob.pos), { s with ob := ob.clear }) := rfl
      rw [Computation.run_bind_ok hrest, Computation.run_bind_ok htake]
      dsimp only
      split
      · exact Hands.none hmaxsize rfl rfl rfl
      · exact injectMessage_hands rv _ hmaxsize rfl rfl rfl
  · rw [injectPayload_refused env rv new hvalid s]
    exact Hands.none rfl rfl rfl rfl

theorem PluginCall.hands (c : PluginCall) (s : Injector) :
    Hands env s (c.run env s) := by
  cases c with
  | addToPayload args =>
      change Hands env s ((Heka.addToPayload env args).run s).2
      unfold Heka.addToPayload
      split
      · exact Hands.none rfl rfl rfl rfl
      · rcases output_keeps env 1 args s with
          ⟨r, ob, hrun, hmaxsize⟩
        rw [hrun]
        exact Hands.none hmaxsize rfl rfl rfl
  | injectMessage rv args => exact injectMessage_hands rv args rfl rfl rfl rfl
  | injectPayload rv new args => exact injectPayload_hands rv new args s
  | encodeMessage args => exact encodeMessage_hands args s
  | other lua errorMessage => exact Hands.none rfl rfl rfl rfl

/-!
## Messages
-/

/-- The host decodes what the plugin's table says; below a limit that has no
room for the uuid it is handed the same records without one, and decodes
nothing. -/
inductive Handed (env : InjectEnv) (maxsize : Nat) (i : Injected) : Prop where
  | whole {below t L m L' hm} :
      env.cfg.restrictedHeaders = true ∨ LimitHoldsUuid maxsize ->
      MessageReads env.encode env.cfg below t L m L' ->
      HoldsMessage i.mem hm m ->
      lsbDecodeHekaMessage i.mem i.start i.len = (true, hm) ->
      Handed env maxsize i
  | withoutUuid {below t L m L'} :
      env.cfg.restrictedHeaders = false ∧ ¬ LimitHoldsUuid maxsize ->
      MessageReads env.encode env.cfg below t L m L' ->
      i.bytes = m.records.bytes ->
      (lsbDecodeHekaMessage i.mem i.start i.len).1 = false ->
      Handed env maxsize i

/-- There is not room for a message of 20 bytes where there is none for a
uuid. -/
theorem short_of_limit {ob : OutputBuffer} {n : Nat}
    (h : ¬ LimitHoldsUuid ob.maxsize) (hle : n <= ob.capacity) : n < 20 := by
  apply Nat.lt_of_not_le
  intro hlong
  exact h (limit_of_le_capacity (by omega))

theorem handed_of_run (hquiet : env.encode.plugin.Quiet) {args : List Value}
    {s : Injector} {e : EncState}
    (h : (encodeArgument env args).run (s.start env) = (Except.ok (), e))
    (rv : Int) :
    Handed env s.ob.maxsize ((s.encoded e).message rv) := by
  rcases message_of_run hquiet h with ⟨m, L', hreads, houtcome⟩
  by_cases hcfg : env.cfg.restrictedHeaders = true ∨
      LimitHoldsUuid s.ob.maxsize
  · rcases decodes_of_run hreads h hcfg with ⟨hm, hholds, hdecode⟩
    exact Handed.whole hcfg hreads hholds hdecode
  · rcases not_or.mp hcfg with ⟨hfalse, hlimit⟩
    have hshort : ¬ LimitHoldsUuid e.w.ob.maxsize := by
      rw [encodeArgument_maxsize h]
      exact hlimit
    cases houtcome with
    | whole _ _ hfits =>
        have huuid := fits_uuid_of_fits hfits
        rcases hreads with ⟨uuid, _, _, hm, _⟩
        rw [hm, fits_uuid_iff rfl] at huuid
        exact absurd huuid hlimit
    | withoutUuid hrestricted _ hemitted _ _ =>
        have hbytes : ((s.encoded e).message rv).bytes = m.records.bytes :=
          (contents_of_emitted hemitted).trans (List.append_nil _)
        refine Handed.withoutUuid ⟨hrestricted, hlimit⟩ hreads hbytes ?_
        rw [Bool.eq_false_iff]
        intro htrue
        have hlong := lsbDecodeHekaMessage_length htrue
        have hless := short_of_limit hshort e.w.ob.pos_le_capacity
        change 20 <= e.w.ob.pos at hlong
        omega

/-- The messages that the host has accepted. -/
def acceptedMessages (is : List Injected) : List Injected :=
  is.filter (fun i => i.result = lsbHekaImSuccess)

/-- What the statistics say and what the host was handed. -/
structure InjectionAccounts (env : InjectEnv) (s : Injector) : Prop where
  handed : forall i, i ∈ s.injected -> Handed env s.ob.maxsize i
  cnt : s.imCnt = (acceptedMessages s.injected).length
  bytes : s.imBytes =
    ((acceptedMessages s.injected).map Injected.len).sum

theorem acceptedMessages_append (is : List Injected) (i : Injected) :
    acceptedMessages (is ++ [i]) =
      if i.result = lsbHekaImSuccess then acceptedMessages is ++ [i]
      else acceptedMessages is := by
  unfold acceptedMessages
  rw [List.filter_append, List.filter_singleton]
  by_cases h : i.result = lsbHekaImSuccess
  · rw [if_pos h, decide_eq_true h]
    rfl
  · rw [if_neg h, decide_eq_false h]
    exact List.append_nil _

theorem InjectionAccounts.called (hquiet : env.encode.plugin.Quiet)
    {s s₁ : Injector} (h : InjectionAccounts env s) {args : List Value}
    {e : EncState} (hmaxsize : s₁.ob.maxsize = s.ob.maxsize)
    (hinjected : s₁.injected = s.injected) (hcnt : s₁.imCnt = s.imCnt)
    (hbytes : s₁.imBytes = s.imBytes)
    (hrun : (encodeArgument env args).run (s₁.start env) =
      (Except.ok (), e)) (rv : Int) :
    InjectionAccounts env ((s₁.encoded e).called rv) where
  handed := by
    intro i hi
    have hlimit : e.w.ob.maxsize = s.ob.maxsize :=
      (encodeArgument_maxsize hrun).trans hmaxsize
    change i ∈ s₁.injected ++ [(s₁.encoded e).message rv] at hi
    change Handed env e.w.ob.maxsize i
    rw [hlimit]
    rw [hinjected] at hi
    rcases List.mem_append.mp hi with hold | hnew
    · exact h.handed i hold
    · cases List.mem_singleton.mp hnew
      rw [← hmaxsize]
      exact handed_of_run hquiet hrun rv
  cnt := by
    have hold := h.cnt
    have hnew := acceptedMessages_append s₁.injected
      ((s₁.encoded e).message rv)
    rw [← hinjected, ← hcnt] at hold
    change (if rv = lsbHekaImSuccess then s₁.imCnt + 1 else s₁.imCnt) =
      (acceptedMessages (s₁.injected ++ [(s₁.encoded e).message rv])).length
    rw [hnew, hold]
    change _ = (if rv = lsbHekaImSuccess then _ else _ : List Injected).length
    split
    · rw [List.length_append, List.length_singleton]
    · rfl
  bytes := by
    have hold := h.bytes
    have hnew := acceptedMessages_append s₁.injected
      ((s₁.encoded e).message rv)
    rw [← hinjected, ← hbytes] at hold
    change (if rv = lsbHekaImSuccess then s₁.imBytes + e.w.ob.pos
      else s₁.imBytes) =
        ((acceptedMessages (s₁.injected ++
          [(s₁.encoded e).message rv])).map Injected.len).sum
    rw [hnew, hold]
    change _ = ((if rv = lsbHekaImSuccess then _ else _ : List Injected).map
      Injected.len).sum
    split
    · rw [List.map_append, List.sum_append, List.map_singleton,
        List.sum_singleton]
      rfl
    · rfl

theorem InjectionAccounts.step (hquiet : env.encode.plugin.Quiet)
    {s s' : Injector} (h : InjectionAccounts env s)
    (hstep : Hands env s s') : InjectionAccounts env s' := by
  cases hstep with
  | none hmaxsize hinjected hcnt hbytes =>
      constructor
      · rw [hmaxsize, hinjected]
        exact h.handed
      · rw [hcnt, hinjected]
        exact h.cnt
      · rw [hbytes, hinjected]
        exact h.bytes
  | one hmaxsize hinjected hcnt hbytes hrun =>
      exact h.called hquiet hmaxsize hinjected hcnt hbytes hrun _

theorem PayloadSession.call_state (x : PayloadSession) (c : PluginCall) :
    (x.call env c).state = c.run env x.state := by
  unfold PayloadSession.call
  cases c with
  | addToPayload args => rfl
  | injectMessage rv args =>
      dsimp only
      split
      · rfl
      · rfl
  | injectPayload rv new args =>
      dsimp only
      split
      · split
        · rfl
        · rfl
      · rfl
  | encodeMessage args =>
      dsimp only
      split
      · rfl
      · rfl
  | other lua errorMessage => rfl

end

/-!
A payload of one text.
-/

end Heka
end LuaSandbox
