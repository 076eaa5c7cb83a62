import LuaSandbox.Heka.PluginTermination

/-!
# The active message

The message that a plugin can read is set for the call of `process_message`.  A
Lua error leaves it set.
-/

namespace LuaSandbox
namespace Heka

open Foundation
open Lua
open Util
open Core

def lsbHekaGetMessage (hsb : HekaSandbox) : Option Nat := hsb.msg

/-!
## The end of a call
-/

/-- The message that a call leaves. -/
def messageLeft (msg : Option Nat) : CallResult -> Option Nat
  | CallResult.error _ => msg
  | CallResult.returned _ => none

section

variable (fmt : NumberFormat) (hsb : HekaSandbox)

theorem countStatus_msg (status : Int) :
    (countStatus hsb status).2.msg = hsb.msg := by
  unfold countStatus
  split
  · rfl
  split
  · rfl
  split
  · rfl
  · rfl

theorem readResults_msg : (readResults fmt hsb).2.msg = hsb.msg := by
  unfold readResults
  dsimp only
  split
  · rfl
  split
  · exact countStatus_msg _ _
  · exact countStatus_msg _ _
  · rfl

theorem processMessage_msg (msg : Option Nat) (nargs : Nat)
    (r : CallResult) :
    (processMessage fmt hsb msg nargs r).2.1.msg = messageLeft msg r := by
  unfold processMessage
  cases r with
  | error v =>
      dsimp only
      split
      · rfl
      · rfl
  | returned values => exact readResults_msg fmt _

/-- A call for a type of plugin gets to the function `process_message`. -/
def Enters (type : PluginType) (f : Value) : Prop :=
  hsb.type = type ∧ (lsbPcallSetup hsb.lsb pmFuncName f).1 = none

theorem lsbHekaPmInput_msg (cpNumeric : Double)
    (cpString : Option (List UInt8)) (f : Value) (r : CallResult)
    (h : hsb.msg = none) :
    (lsbHekaPmInput fmt hsb cpNumeric cpString f r).2.1.msg = none := by
  unfold lsbHekaPmInput
  split
  · exact h
  split
  · dsimp only
    split
    · exact h
    · exact h
  · change (processMessage fmt _ none 1 r).2.1.msg = none
    rw [processMessage_msg]
    cases r with
    | error v => rfl
    | returned values => rfl

theorem lsbHekaTimerEvent_msg (t : Int) (shutdown : Bool) (f : Value)
    (r : CallResult) (h : hsb.msg = none) :
    (lsbHekaTimerEvent fmt hsb t shutdown f r).2.1.msg = none := by
  unfold lsbHekaTimerEvent
  split
  · exact h
  split
  · exact h
  · cases r with
    | error v => exact h
    | returned values => exact h

def Raises (r : CallResult) : Prop := exists v, r = CallResult.error v

theorem messageLeft_eq_none {msg : Option Nat} {r : CallResult} :
    messageLeft msg r = none <-> ¬ (msg ≠ none ∧ Raises r) := by
  cases r with
  | error v =>
      have hraises : Raises (CallResult.error v) := ⟨v, rfl⟩
      change msg = none <-> _
      rw [and_iff_left hraises, not_not]
  | returned values =>
      refine iff_of_true rfl ?_
      rintro ⟨_, v, hr⟩
      cases hr

/-- What a call for a type of plugin leaves, by the points where it ends. -/
theorem msg_eq_none_iff {type : PluginType} {msg left : Option Nat}
    {f : Value} {r : CallResult}
    (hskip : msg = none ∨ hsb.type ≠ type -> left = none)
    (hrefused : (lsbPcallSetup hsb.lsb pmFuncName f).1 ≠ none -> left = none)
    (hcalled : msg ≠ none -> Enters hsb type f -> left = messageLeft msg r) :
    left = none <-> ¬ (msg ≠ none ∧ Enters hsb type f ∧ Raises r) := by
  by_cases hmsg : msg = none
  · exact iff_of_true (hskip (Or.inl hmsg)) (fun h => h.1 hmsg)
  by_cases htype : hsb.type = type
  · by_cases hsetup : (lsbPcallSetup hsb.lsb pmFuncName f).1 = none
    · have henters : Enters hsb type f := ⟨htype, hsetup⟩
      rw [hcalled hmsg henters, messageLeft_eq_none, and_iff_right henters]
    · exact iff_of_true (hrefused hsetup) (fun h => hsetup h.2.1.2)
  · exact iff_of_true (hskip (Or.inr htype)) (fun h => htype h.2.1.1)

theorem lsbHekaPmAnalysis_msg (msg : Option Nat) (f : Value)
    (r : CallResult) (h : hsb.msg = none) :
    (lsbHekaPmAnalysis fmt hsb msg f r).2.1.msg = none <->
      ¬ (msg ≠ none ∧ Enters hsb PluginType.analysis f ∧ Raises r) := by
  apply msg_eq_none_iff
  · intro hskip
    unfold lsbHekaPmAnalysis
    rw [if_pos hskip]
    exact h
  · intro hrefused
    unfold lsbHekaPmAnalysis
    split
    · exact h
    split
    · exact h
    · rename_i hsetup
      rw [hsetup] at hrefused
      exact absurd rfl hrefused
  · rintro hmsg ⟨htype, hsetup⟩
    unfold lsbHekaPmAnalysis
    rw [if_neg (not_or.mpr ⟨hmsg, not_not.mpr htype⟩)]
    split
    · rename_i herr
      rw [herr] at hsetup
      cases hsetup
    · exact processMessage_msg fmt _ msg 0 r

theorem lsbHekaPmOutput_msg (msg sequenceId : Option Nat) (f : Value)
    (r : CallResult) (h : hsb.msg = none) :
    (lsbHekaPmOutput fmt hsb msg sequenceId f r).2.1.msg = none <->
      ¬ (msg ≠ none ∧ Enters hsb PluginType.output f ∧ Raises r) := by
  apply msg_eq_none_iff
  · intro hskip
    unfold lsbHekaPmOutput
    rw [if_pos hskip]
    exact h
  · intro hrefused
    unfold lsbHekaPmOutput
    split
    · exact h
    split
    · exact h
    · rename_i hsetup
      rw [hsetup] at hrefused
      exact absurd rfl hrefused
  · rintro hmsg ⟨htype, hsetup⟩
    unfold lsbHekaPmOutput
    rw [if_neg (not_or.mpr ⟨hmsg, not_not.mpr htype⟩)]
    split
    · rename_i herr
      rw [herr] at hsetup
      cases hsetup
    · cases sequenceId with
      | none => exact processMessage_msg fmt _ msg 0 r
      | some id => exact processMessage_msg fmt _ msg 1 r

end

/-!
## Runs
-/

/-- The call hands a message to `process_message`, which raises an error. -/
def MessageRaises (hsb : HekaSandbox) : HostCall -> Prop
  | HostCall.entry (EntryCall.pmAnalysis msg f r) =>
      msg ≠ none ∧ Enters hsb PluginType.analysis f ∧ Raises r
  | HostCall.entry (EntryCall.pmOutput msg _ f r) =>
      msg ≠ none ∧ Enters hsb PluginType.output f ∧ Raises r
  | _ => False

section

variable {fmt : NumberFormat}

/-- One call leaves a message exactly if its message raises. -/
theorem hostCall_msg_iff {hsb t : HekaSandbox} {c : HostCall}
    (h : hsb.msg = none) (ht : (c.run fmt hsb).1 = some t) :
    t.msg = none <-> ¬ MessageRaises hsb c := by
  cases c with
  | entry c =>
      cases ht
      cases c with
      | pmAnalysis msg f r =>
          exact lsbHekaPmAnalysis_msg fmt hsb msg f r h
      | pmOutput msg sequenceId f r =>
          exact lsbHekaPmOutput_msg fmt hsb msg sequenceId f r h
      | pmInput cpNumeric cpString f r =>
          exact iff_of_true
            (lsbHekaPmInput_msg fmt hsb cpNumeric cpString f r h) id
      | init stateFile o => exact iff_of_true h id
      | timerEvent t shutdown f r =>
          exact iff_of_true (lsbHekaTimerEvent_msg fmt hsb t shutdown f r h) id
  | stopSandbox | stopSandboxClean | terminate err =>
      cases ht
      exact iff_of_true h id
  | destroy o => cases ht

/-- The sandbox has no active message when a call has returned. -/
def NoActiveMessage (fmt : NumberFormat) (hsb : HekaSandbox)
    (calls : List HostCall) : Prop :=
  forall before after t, calls = before ++ after ->
    (hostRun fmt hsb before).1 = some t -> lsbHekaGetMessage t = none

def NoMessageRaises (fmt : NumberFormat) (hsb : HekaSandbox)
    (calls : List HostCall) : Prop :=
  forall before c after t, calls = before ++ c :: after ->
    (hostRun fmt hsb before).1 = some t -> ¬ MessageRaises t c

theorem hostRun_cons {hsb next : HekaSandbox} {c : HostCall}
    (calls : List HostCall) (h : (c.run fmt hsb).1 = some next) :
    (hostRun fmt hsb (c :: calls)).1 = (hostRun fmt next calls).1 := by
  have hone : (hostRun fmt hsb [c]).1 = some next := by
    unfold hostRun
    generalize c.run fmt hsb = r at h
    rcases r with ⟨_ | u, events⟩
    · cases h
    · cases h
      rfl
  exact hostRun_append calls hone

theorem hostRun_msg {before : List HostCall} :
    forall {hsb t : HekaSandbox} {calls after : List HostCall},
      hsb.msg = none -> NoMessageRaises fmt hsb calls ->
      calls = before ++ after -> (hostRun fmt hsb before).1 = some t ->
      t.msg = none := by
  induction before with
  | nil =>
      intro hsb t calls after h _ _ ht
      cases ht
      exact h
  | cons c before ih =>
      intro hsb t calls after h hraises hcalls ht
      generalize hrun : (c.run fmt hsb).1 = r
      cases r with
      | none =>
          unfold hostRun at ht
          split at ht
          · cases ht
          · rename_i hsome
            rw [hsome] at hrun
            cases hrun
      | some next =>
          have hfirst : ¬ MessageRaises hsb c :=
            hraises [] c (before ++ after) hsb hcalls rfl
          have hnext := (hostCall_msg_iff h hrun).mpr hfirst
          have hlater : NoMessageRaises fmt next (before ++ after) := by
            intro first d rest u hrest hu
            refine hraises (c :: first) d rest u ?_ ?_
            · rw [hcalls, List.cons_append, hrest]
              rfl
            · rw [hostRun_cons first hrun]
              exact hu
          rw [hostRun_cons before hrun] at ht
          exact ih hnext hlater rfl ht

theorem noActiveMessage_of_msg {hsb : HekaSandbox} {calls : List HostCall}
    (h : hsb.msg = none) :
    NoActiveMessage fmt hsb calls <-> NoMessageRaises fmt hsb calls := by
  constructor
  · intro hquiet before c after t hcalls ht hraises
    have hbefore := hquiet before (c :: after) t hcalls ht
    have hreturns : exists u, (c.run fmt t).1 = some u := by
      cases c with
      | entry c => exact ⟨_, rfl⟩
      | stopSandbox | stopSandboxClean | terminate | destroy =>
          cases hraises
    rcases hreturns with ⟨u, hu⟩
    have hnext := hquiet (before ++ [c]) after u
      (by rw [hcalls, List.append_assoc]; rfl)
      (by rw [hostRun_append [c] ht, hostRun_cons [] hu]; rfl)
    exact (hostCall_msg_iff hbefore hu).mp hnext hraises
  · intro hraises before after t hcalls ht
    exact hostRun_msg h hraises hcalls ht

end

end Heka
end LuaSandbox
