import LuaSandbox.Heka.Plugin

/-!
# Termination

A terminated sandbox stays terminated and runs no more Lua code, up to a clean
stop, which puts it back into use.
-/

namespace LuaSandbox
namespace Heka

open Foundation
open Lua
open Util
open Core

/-!
## Host calls
-/

/-- Calls in a row, up to the one that destroys the sandbox. -/
def hostRun (fmt : NumberFormat) (hsb : HekaSandbox) :
    List HostCall -> Option HekaSandbox × List Event
  | [] => (some hsb, [])
  | c :: calls =>
      match c.run fmt hsb with
      | (none, events) => (none, events)
      | (some hsb, events) =>
          let (last, later) := hostRun fmt hsb calls
          (last, events ++ later)

/-- Once the sandbox is terminated its state stays, and no later call runs Lua
code or writes the state file. -/
def TerminationAbsorbs (fmt : NumberFormat) (hsb : HekaSandbox)
    (calls : List HostCall) : Prop :=
  forall before later after t, calls = before ++ later ++ after ->
    (hostRun fmt hsb before).1 = some t ->
    t.lsb.state = LsbState.terminated ->
    (forall e, e ∈ (hostRun fmt t later).2 ->
      e.callsLua = false ∧ e.writesFile = false) ∧
    forall u, (hostRun fmt t later).1 = some u ->
      u.lsb.state = LsbState.terminated

/-- No sandbox is stopped cleanly after it was terminated. -/
def NoLateStop (fmt : NumberFormat) (hsb : HekaSandbox)
    (calls : List HostCall) : Prop :=
  forall before c after t, calls = before ++ c :: after ->
    (hostRun fmt hsb before).1 = some t ->
    t.lsb.state = LsbState.terminated -> c ≠ HostCall.stopSandboxClean

section

variable {fmt : NumberFormat}

theorem hostRun_append {hsb t : HekaSandbox} {before : List HostCall} :
    forall (later : List HostCall), (hostRun fmt hsb before).1 = some t ->
      (hostRun fmt hsb (before ++ later)).1 = (hostRun fmt t later).1 := by
  induction before generalizing hsb with
  | nil =>
      intro later h
      cases h
      rfl
  | cons c before ih =>
      intro later h
      rw [List.cons_append]
      unfold hostRun at h
      rw [hostRun]
      generalize c.run fmt hsb = r at h
      rcases r with ⟨_ | next, events⟩
      · cases h
      · exact ih later h

/-- A terminated sandbox refuses every call that would run Lua code. -/
theorem entryRun_terminated (fmt : NumberFormat) {hsb : HekaSandbox}
    (c : EntryCall)
    (h : hsb.lsb.state = LsbState.terminated) :
    (c.run fmt hsb).1.lsb.state = LsbState.terminated ∧
      (c.run fmt hsb).2 = [] := by
  have hsetup : forall name f, lsbPcallSetup hsb.lsb name f =
      (some LsbErr.terminated, hsb.lsb, []) := by
    intro name f
    unfold lsbPcallSetup
    rw [if_pos h]
  cases c with
  | init stateFile o =>
      have hinit : hsb.lsb.state ≠ LsbState.unknown := by
        rw [h]
        nofun
      have hrefused : lsbInit fmt hsb.lsb stateFile o = (some LsbErr.init,
          lsbTerminate hsb.lsb (some (ascii LsbErr.init.message)), []) := by
        unfold lsbInit
        exact if_pos hinit
      change (lsbInit fmt hsb.lsb stateFile o).2.1.state = _ ∧
        (lsbInit fmt hsb.lsb stateFile o).2.2 = []
      rw [hrefused]
      exact ⟨rfl, rfl⟩
  | pmInput cpNumeric cpString f r =>
      rw [EntryCall.run]
      unfold lsbHekaPmInput
      rw [hsetup]
      dsimp only
      split
      · exact ⟨h, rfl⟩
      · exact ⟨h, rfl⟩
  | pmAnalysis msg f r =>
      rw [EntryCall.run]
      unfold lsbHekaPmAnalysis
      rw [hsetup]
      dsimp only
      split
      · exact ⟨h, rfl⟩
      · exact ⟨rfl, rfl⟩
  | pmOutput msg sequenceId f r =>
      rw [EntryCall.run]
      unfold lsbHekaPmOutput
      rw [hsetup]
      dsimp only
      split
      · exact ⟨h, rfl⟩
      · exact ⟨rfl, rfl⟩
  | timerEvent t shutdown f r =>
      rw [EntryCall.run]
      unfold lsbHekaTimerEvent
      rw [hsetup]
      dsimp only
      split
      · exact ⟨h, rfl⟩
      · exact ⟨rfl, rfl⟩

theorem lsbDestroy_terminated {lsb : Sandbox} (o : PreserveOutcome)
    (h : lsb.state = LsbState.terminated) : (lsbDestroy lsb o).2 = [] := by
  unfold lsbDestroy preserveGlobalData
  generalize lsb.stateFile = file
  cases file with
  | none => rfl
  | some file =>
      dsimp only
      rw [if_pos h]

/-- What one call does to a terminated sandbox. -/
theorem hostCall_terminated (fmt : NumberFormat) {hsb : HekaSandbox}
    {c : HostCall}
    (h : hsb.lsb.state = LsbState.terminated)
    (hc : c ≠ HostCall.stopSandboxClean) :
    (c.run fmt hsb).2 = [] ∧ forall t, (c.run fmt hsb).1 = some t ->
      t.lsb.state = LsbState.terminated := by
  cases c with
  | entry c =>
      have hentry := entryRun_terminated fmt c h
      refine ⟨hentry.2, fun t ht => ?_⟩
      cases ht
      exact hentry.1
  | stopSandbox =>
      refine ⟨rfl, fun t ht => ?_⟩
      cases ht
      exact h
  | stopSandboxClean => exact absurd rfl hc
  | terminate err =>
      refine ⟨rfl, fun t ht => ?_⟩
      cases ht
      cases err <;> rfl
  | destroy o => exact ⟨lsbDestroy_terminated o h, nofun⟩

theorem hostRun_terminated {calls : List HostCall} :
    forall {hsb : HekaSandbox}, hsb.lsb.state = LsbState.terminated ->
      NoLateStop fmt hsb calls ->
      (hostRun fmt hsb calls).2 = [] ∧
        forall t, (hostRun fmt hsb calls).1 = some t ->
          t.lsb.state = LsbState.terminated := by
  induction calls with
  | nil =>
      intro hsb h _
      refine ⟨rfl, fun t ht => ?_⟩
      cases ht
      exact h
  | cons c calls ih =>
      intro hsb h hstop
      have hstep := hostCall_terminated fmt h
        (hstop [] c calls hsb rfl rfl h)
      have hrest : forall next, (c.run fmt hsb).1 = some next ->
          NoLateStop fmt next calls := by
        intro next hnext before d after t hcalls ht
        refine hstop (c :: before) d after t (by rw [hcalls]; rfl) ?_
        unfold hostRun
        generalize c.run fmt hsb = r at hnext
        rcases r with ⟨_ | u, events⟩
        · cases hnext
        · cases hnext
          exact ht
      unfold hostRun
      generalize c.run fmt hsb = r at hstep hrest
      rcases r with ⟨_ | next, events⟩
      · exact ⟨hstep.1, nofun⟩
      · have hlater := ih (hstep.2 next rfl) (hrest next rfl)
        dsimp only at hstep ⊢
        rw [hstep.1, hlater.1]
        exact ⟨rfl, hlater.2⟩

theorem NoLateStop.later {hsb t : HekaSandbox}
    {before later after : List HostCall}
    (h : NoLateStop fmt hsb (before ++ later ++ after))
    (ht : (hostRun fmt hsb before).1 = some t) :
    NoLateStop fmt t later := by
  intro first c rest u hlater hu
  refine h (before ++ first) c (rest ++ after) u ?_ ?_
  · rw [hlater, List.append_assoc, List.append_assoc, List.append_assoc]
    rfl
  · rw [hostRun_append first ht]
    exact hu

end

end Heka
end LuaSandbox
