import LuaSandbox.Heka.InjectionSteps

/-!
# What becomes of the text of a payload

Text that a plugin adds waits in the output buffer for the next payload.  Every
message is encoded in the same buffer: it throws the text away, and if the
encoding fails it leaves what it has written in its place.
-/

namespace LuaSandbox
namespace Heka

open Foundation
open Lua
open Util
open Core

/-!
## Sessions
-/

/-- A sandbox, what the last encoding has left in its buffer, the texts that
were added since, and whether that encoding gave no message. -/
structure PayloadSession where
  state : Injector
  residue : List UInt8
  texts : List (List UInt8)
  failed : Bool

section

variable (env : InjectEnv)

/-- The payload of the next message. -/
def PayloadSession.payload (x : PayloadSession) (args : List Value) :
    List UInt8 :=
  x.residue ++
    (x.texts ++ acceptedTexts env x.state (textArguments args)).flatten

/-- All arguments find room, there is a payload, and its message fits. -/
structure DeliversPayload (x : PayloadSession) (args : List Value)
    (type : List UInt8) (name : Option (List UInt8)) : Prop where
  accepted : (acceptedTexts env x.state (textArguments args)).length =
    (textArguments args).length
  nonempty : x.payload env args ≠ []
  fits : PayloadFits env x.state.ob type name (x.payload env args)

/-- Behind an encoding all is unknown but what it has left. -/
def PayloadSession.restart (s : Injector) (failed : Bool) : PayloadSession :=
  ⟨s, s.ob.contents, [], failed⟩

/-- No message was handed to the host. -/
def noneInjected (s s' : Injector) : Bool :=
  s'.injected.length = s.injected.length

def encodeMessageFails (s : Injector) (args : List Value) : Bool :=
  match (hekaEncodeMessage env args).run s with
  | (Except.ok _, _) => false
  | (Except.error _, _) => true

def PayloadSession.call (x : PayloadSession) (c : PluginCall) :
    PayloadSession :=
  let s := c.run env x.state
  match c with
  | PluginCall.addToPayload args =>
      { x with state := s, texts := x.texts ++ acceptedTexts env x.state args }
  | PluginCall.injectMessage _ args =>
      if typeAt args 1 = LuaType.table then
        PayloadSession.restart s (noneInjected x.state s)
      else
        { x with state := s }
  | PluginCall.encodeMessage args =>
      if EncodeArguments args then
        PayloadSession.restart s (encodeMessageFails env x.state args)
      else
        { x with state := s }
  | PluginCall.injectPayload _ _ args =>
      let texts := acceptedTexts env x.state (textArguments args)
      if ValidNames args then
        if texts.length = (textArguments args).length then
          PayloadSession.restart s (noneInjected x.state s)
        else
          { x with state := s, texts := x.texts ++ texts }
      else
        { x with state := s }
  | PluginCall.other _ _ => { x with state := s }

/-- The sessions of a plugin from a new sandbox on. -/
inductive PayloadReachable : PayloadSession -> Prop where
  | create {lua : LuaState} {mem : Memory} {limit : Nat} :
      PayloadReachable ⟨⟨lua, lsbInitOutputBuffer mem limit, [], 0, 0, []⟩,
        [], [], false⟩
  | call {x : PayloadSession} (c : PluginCall) (hx : PayloadReachable x) :
      PayloadReachable (x.call env c)

end

/-!
## The buffer
-/

/-- The buffer holds the residue and the texts; an encoding that gave a message
has left nothing. -/
structure PayloadInvariant (x : PayloadSession) : Prop where
  contents : x.state.ob.contents = x.residue ++ x.texts.flatten
  clean : x.failed = false -> x.residue = []

section

variable {env : InjectEnv}

theorem invariant_restart {s : Injector} {failed : Bool}
    (h : failed = false -> s.ob.contents = []) :
    PayloadInvariant (PayloadSession.restart s failed) where
  contents := (List.append_nil _).symm
  clean := h

theorem noneInjected_called {s s' : Injector} {rv : Int}
    (h : s'.injected = s.injected) :
    noneInjected s (s'.called rv) = false := by
  unfold noneInjected Injector.called
  dsimp only
  rw [h, List.length_append, List.length_singleton]
  exact decide_eq_false (Nat.succ_ne_self _)

theorem noneInjected_same {s s' : Injector} (h : s'.injected = s.injected) :
    noneInjected s s' = true := by
  unfold noneInjected
  rw [h]
  exact decide_eq_true rfl

theorem PayloadInvariant.kept {x : PayloadSession} {s : Injector}
    (h : PayloadInvariant x) (hs : s.ob = x.state.ob) :
    PayloadInvariant { x with state := s } where
  contents := by
    change s.ob.contents = _
    rw [hs]
    exact h.contents
  clean := h.clean

theorem PayloadInvariant.added {x : PayloadSession} {s : Injector}
    {texts : List (List UInt8)} (h : PayloadInvariant x)
    (hs : s.ob.contents = x.state.ob.contents ++ texts.flatten) :
    PayloadInvariant { x with state := s, texts := x.texts ++ texts } where
  contents := by
    change s.ob.contents = x.residue ++ (x.texts ++ texts).flatten
    rw [hs, h.contents, List.flatten_append, List.append_assoc]
  clean := h.clean

theorem clear_contents (b : OutputBuffer) : b.clear.contents = [] :=
  rfl

/-- The payload is what stands in the buffer and the texts that are added. -/
theorem PayloadInvariant.payload_eq {x : PayloadSession}
    (h : PayloadInvariant x) (env : InjectEnv) (args : List Value) :
    x.state.ob.contents ++
        (acceptedTexts env x.state (textArguments args)).flatten =
      x.payload env args := by
  unfold PayloadSession.payload
  rw [h.contents, List.flatten_append, List.append_assoc]

theorem PayloadInvariant.injectMessage {x : PayloadSession}
    (h : PayloadInvariant x) (rv : Int) (args : List Value) :
    PayloadInvariant (x.call env (PluginCall.injectMessage rv args)) := by
  unfold PayloadSession.call PluginCall.run
  dsimp only
  by_cases htable : typeAt args 1 = LuaType.table
  · rw [if_pos htable]
    apply invariant_restart
    generalize hrun : (encodeArgument env args).run (x.state.start env) = r
    rcases r with ⟨stop | u, e⟩
    · rcases injectMessage_error rv htable hrun with ⟨err, hcall⟩
      have hsame : noneInjected x.state (x.state.encoded e) = true :=
        noneInjected_same rfl
      rw [hcall]
      intro hnone
      cases hsame.symm.trans hnone
    · rcases injectMessage_ok rv htable hrun with ⟨r, hcall, _⟩
      rw [hcall]
      exact fun _ => clear_contents _
  · rw [if_neg htable]
    rcases injectMessage_refused env rv htable (s := x.state) with
      ⟨e, hcall⟩
    rw [hcall]
    exact h

theorem PayloadInvariant.encodeMessage {x : PayloadSession}
    (h : PayloadInvariant x) (args : List Value) :
    PayloadInvariant (x.call env (PluginCall.encodeMessage args)) := by
  unfold PayloadSession.call PluginCall.run encodeMessageFails
  dsimp only
  by_cases hargs : EncodeArguments args
  · rw [if_pos hargs]
    apply invariant_restart
    generalize hrun : (encodeArgument env args).run (x.state.start env) = r
    rcases r with ⟨stop | u, e⟩
    · rcases encodeMessage_error hargs hrun with ⟨err, hcall⟩
      rw [hcall]
      exact nofun
    · rw [encodeMessage_ok hargs hrun]
      exact fun _ => clear_contents _
  · rw [if_neg hargs]
    rcases encodeMessage_refused env hargs (s := x.state) with ⟨e, hcall⟩
    rw [hcall]
    exact h

theorem PayloadInvariant.addToPayload {x : PayloadSession}
    (halloc : forall n, env.alloc n = true) (h : PayloadInvariant x)
    (args : List Value) :
    PayloadInvariant (x.call env (PluginCall.addToPayload args)) := by
  have hadded : ((Heka.addToPayload env args).run x.state).2.ob.contents =
      x.state.ob.contents ++ (acceptedTexts env x.state args).flatten := by
    unfold Heka.addToPayload
    by_cases hnone : args.length = 0
    · rw [if_pos hnone]
      cases List.length_eq_zero_iff.mp hnone
      exact (List.append_nil _).symm
    · rw [if_neg hnone]
      rcases run_output halloc 1 args x.state with
        ⟨r, ob, hrun, hcontents, _⟩
      rw [hrun]
      exact hcontents
  exact h.added hadded

theorem PayloadInvariant.injectPayload {x : PayloadSession}
    (hfuel : 3 <= env.fuel) (halloc : forall n, env.alloc n = true)
    (h : PayloadInvariant x) (rv : Int) (new : NewTables)
    (args : List Value) :
    PayloadInvariant (x.call env (PluginCall.injectPayload rv new args)) := by
  unfold PayloadSession.call PluginCall.run
  dsimp only
  by_cases hvalid : ValidNames args
  · rcases validNames_iff.mp hvalid with ⟨type, name, hnames⟩
    have houtcome := injectPayload_outcome rv hfuel halloc new hnames
      x.state
    rw [if_pos hvalid]
    generalize ((Heka.injectPayload env rv new args).run x.state).2 = s
      at houtcome ⊢
    cases houtcome with
    | refused hrefused hcontents =>
        rw [if_neg hrefused]
        exact h.added hcontents
    | nothing hall _ hcontents =>
        rw [if_pos hall]
        exact invariant_restart (fun _ => hcontents)
    | delivered hall =>
        rw [if_pos hall]
        exact invariant_restart (fun _ => clear_contents _)
    | lost hall =>
        rename_i e _ _ _
        have hsame : noneInjected x.state (x.state.encoded e) = true :=
          noneInjected_same rfl
        rw [if_pos hall]
        apply invariant_restart
        intro hnone
        cases hsame.symm.trans hnone
  · rw [if_neg hvalid, injectPayload_refused env rv new hvalid x.state]
    exact h

theorem PayloadReachable.invariant {x : PayloadSession}
    (hfuel : 3 <= env.fuel) (halloc : forall n, env.alloc n = true)
    (hx : PayloadReachable env x) : PayloadInvariant x := by
  induction hx with
  | create => exact ⟨rfl, fun _ => rfl⟩
  | call c hx ih =>
      cases c with
      | addToPayload args => exact ih.addToPayload halloc args
      | injectMessage rv args => exact ih.injectMessage rv args
      | injectPayload rv new args =>
          exact ih.injectPayload hfuel halloc rv new args
      | encodeMessage args => exact ih.encodeMessage args
      | other lua errorMessage => exact ih.kept rfl

/-!
## Residues
-/

/-- A call that gets to the encoder with the table `a`. -/
inductive EncodesTable (a : Nat) : PluginCall -> Prop where
  | inject {rv rest} :
      EncodesTable a (PluginCall.injectMessage rv (Value.table a :: rest))
  | encode {rest} :
      EncodeArguments (Value.table a :: rest) ->
      EncodesTable a (PluginCall.encodeMessage (Value.table a :: rest))

/-- A failed call leaves what its encoder has left. -/
theorem EncodesTable.failed {a : Nat} {c : PluginCall}
    (h : EncodesTable a c) {x : PayloadSession}
    (hfailed : (x.call env c).failed = true) :
    exists below e stop,
      (hekaEncodeMessageTable env.encode env.cfg env.fuel below
        (Value.table a)).run (x.state.start env) = (Except.error stop, e) ∧
      (x.call env c).residue = e.w.ob.contents := by
  unfold PayloadSession.call PluginCall.run at hfailed ⊢
  cases h with
  | inject =>
      rename_i rv rest
      have htable : typeAt (Value.table a :: rest) 1 = LuaType.table := rfl
      generalize hrun : (encodeArgument env (Value.table a :: rest)).run
        (x.state.start env) = r
      rcases r with ⟨stop | u, e⟩
      · rcases injectMessage_error rv htable hrun with ⟨err, hcall⟩
        refine ⟨_, e, stop, hrun, ?_⟩
        dsimp only
        rw [if_pos htable, hcall]
        rfl
      · rcases injectMessage_ok rv htable hrun with ⟨r, hcall, _⟩
        dsimp only at hfailed
        rw [if_pos htable, hcall] at hfailed
        have hgave : noneInjected x.state ((x.state.encoded e).called rv) =
            false := noneInjected_called rfl
        cases hgave.symm.trans hfailed
  | encode hargs =>
      rename_i rest
      generalize hrun : (encodeArgument env (Value.table a :: rest)).run
        (x.state.start env) = r
      rcases r with ⟨stop | u, e⟩
      · rcases encodeMessage_error hargs hrun with ⟨err, hcall⟩
        refine ⟨_, e, stop, hrun, ?_⟩
        dsimp only
        rw [if_pos hargs, hcall]
        rfl
      · dsimp only at hfailed
        unfold encodeMessageFails at hfailed
        rw [if_pos hargs, encodeMessage_ok hargs hrun] at hfailed
        cases hfailed

/-- The message that the host was handed last says what the payload is. -/
def HandsOver (s s' : Injector) (rv : Int) (m : MessageContent) : Prop :=
  exists i hm, s'.injected = s.injected ++ [i] ∧ i.result = rv ∧
    HoldsMessage i.mem hm m ∧
    lsbDecodeHekaMessage i.mem i.start i.len = (true, hm)

end

/-!
A text in a new sandbox.
-/

def sampleInject : InjectEnv :=
  ⟨sampleEnv, ⟨none, none, 1, false, pid_range_one⟩, fun _ => [],
    fun _ => true, 3⟩

def newSandbox : PayloadSession :=
  ⟨⟨emptyState, lsbInitOutputBuffer (fun _ => 0) 0, [], 0, 0, []⟩, [], [],
    false⟩

def sampleText : PayloadSession :=
  newSandbox.call sampleInject
    (PluginCall.addToPayload [Value.string (ascii "a")])

theorem sampleText_payload : sampleText.payload sampleInject [] = ascii "a" :=
  rfl

def smallSandbox : PayloadSession :=
  ⟨⟨emptyState, lsbInitOutputBuffer (fun _ => 0) 1, [], 0, 0, []⟩, [], [],
    false⟩

end Heka
end LuaSandbox
