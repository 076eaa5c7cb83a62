import LuaSandbox.Heka.Plugin

/-!
# The Lua stack between calls

Every call takes from the stack what it has put there, with three exceptions:
the results of the main chunk, those of the state file, and the error of an
input plugin that is shutting down.
-/

namespace LuaSandbox
namespace Heka

open Foundation
open Lua
open Util
open Core

/-- Calls in a row. -/
def entryRun (fmt : NumberFormat) (hsb : HekaSandbox) :
    List EntryCall -> HekaSandbox × List Event
  | [] => (hsb, [])
  | c :: calls =>
      let (hsb, events) := c.run fmt hsb
      let (last, later) := entryRun fmt hsb calls
      (last, events ++ later)

/-- The stack is empty unless the sandbox is terminated. -/
def Balanced (hsb : HekaSandbox) : Prop :=
  hsb.lsb.state ≠ LsbState.terminated -> hsb.lsb.stack = []

/-- The results that were read are those of the call itself. -/
def OwnResults (e : Event) : Prop :=
  match e with
  | Event.results status message returned =>
      status = (adjust 2 returned)[0]? ∧ message = (adjust 2 returned)[1]?
  | _ => True

/-- The stack is balanced after every call, and every call reads its own
results. -/
structure StackBalanced (fmt : NumberFormat) (hsb : HekaSandbox)
    (calls : List EntryCall) : Prop where
  balanced : forall before after, calls = before ++ after ->
    Balanced (entryRun fmt hsb before).1
  own : forall e, e ∈ (entryRun fmt hsb calls).2 -> OwnResults e

/-!
## What a call leaves on the stack
-/

/-- The values that the main chunk and the state file return, if both
succeed. -/
def chunkLeaves (file : Option (List UInt8)) (o : InitOutcome) :
    List Value :=
  match o.chunk with
  | CallResult.error _ => []
  | CallResult.returned values =>
      match file, o.restore with
      | none, _ => values
      | some _, RestoreResult.missing => values
      | some _, RestoreResult.unreadable v => values ++ [v]
      | some _, RestoreResult.ran (CallResult.error _) => []
      | some _, RestoreResult.ran (CallResult.returned more) => values ++ more

def initLeaves (lsb : Sandbox) (stateFile : Option (List UInt8))
    (o : InitOutcome) : List Value :=
  let file := stateFile.filter (fun s => s ≠ [])
  if lsb.state ≠ LsbState.unknown ∨ file.isSome ∧ o.allocated = false ∨
      o.require.isCFunction = false then
    []
  else
    match o.base with
    | CallResult.error _ => []
    | CallResult.returned _ => chunkLeaves (file.or lsb.stateFile) o

/-- The error of an input plugin that is shutting down. -/
def resultLeaves (fmt : NumberFormat) (type : PluginType) (r : CallResult) :
    List Value :=
  match r with
  | CallResult.error v =>
      if type = PluginType.input ∧ isShuttingDown fmt v then [v] else []
  | CallResult.returned _ => []

def leaves (fmt : NumberFormat) (hsb : HekaSandbox) :
    EntryCall -> List Value
  | EntryCall.init stateFile o => initLeaves hsb.lsb stateFile o
  | EntryCall.pmInput _ _ f r =>
      if hsb.lsb.state ≠ LsbState.terminated ∧
          f.type = LuaType.function then
        resultLeaves fmt hsb.type r
      else
        []
  | _ => []

/-- No call leaves a value on the stack. -/
def NothingLeft (fmt : NumberFormat) (hsb : HekaSandbox)
    (calls : List EntryCall) : Prop :=
  forall before c after, calls = before ++ c :: after ->
    leaves fmt (entryRun fmt hsb before).1 c = []

/-- What a call on a balanced sandbox makes of it. -/
structure Leaves (lsb : Sandbox) (events : List Event) (left : List Value) :
    Prop where
  stack : lsb.state ≠ LsbState.terminated -> lsb.stack = left
  running : left ≠ [] -> lsb.state ≠ LsbState.terminated
  own : forall e, e ∈ events -> OwnResults e

theorem Leaves.terminated {lsb : Sandbox} {events : List Event}
    (h : lsb.state = LsbState.terminated)
    (hown : forall e, e ∈ events -> OwnResults e) : Leaves lsb events [] :=
  ⟨fun hne => absurd h hne, fun hne => absurd rfl hne, hown⟩

theorem Leaves.nothing {lsb : Sandbox} {events : List Event}
    (h : lsb.state ≠ LsbState.terminated -> lsb.stack = [])
    (hown : forall e, e ∈ events -> OwnResults e) : Leaves lsb events [] :=
  ⟨h, fun hne => absurd rfl hne, hown⟩

theorem Leaves.cons {lsb : Sandbox} {events : List Event} {left : List Value}
    {e : Event} (h : Leaves lsb events left) (he : OwnResults e) :
    Leaves lsb (e :: events) left := by
  refine ⟨h.stack, h.running, fun d hd => ?_⟩
  rcases List.mem_cons.mp hd with rfl | hrest
  · exact he
  · exact h.own d hrest

theorem runChunk_leaves (fmt : NumberFormat) {lsb : Sandbox}
    (o : InitOutcome) (h : lsb.stack = []) :
    Leaves (runChunk fmt lsb o).2.1 (runChunk fmt lsb o).2.2
      (chunkLeaves lsb.stateFile o) := by
  unfold chunkLeaves
  unfold runChunk
  generalize o.chunk = chunk
  cases chunk with
  | error v => exact Leaves.cons (Leaves.terminated rfl nofun) trivial
  | returned values =>
      dsimp only
      refine Leaves.cons ?_ trivial
      rw [h, List.nil_append]
      unfold restoreGlobalData
      generalize lsb.stateFile = file
      generalize o.restore = restore
      have hrunning : LsbState.running ≠ LsbState.terminated := nofun
      have hfile : forall {name : List UInt8} (e : Event),
          e ∈ [Event.dofile name] -> OwnResults e := by
        intro name e he
        cases List.mem_singleton.mp he
        trivial
      cases file with
      | none => exact ⟨fun _ => rfl, fun _ => hrunning, nofun⟩
      | some name =>
          cases restore with
          | missing => exact ⟨fun _ => rfl, fun _ => hrunning, nofun⟩
          | unreadable v => exact ⟨fun _ => rfl, fun _ => hrunning, hfile⟩
          | ran r =>
              cases r with
              | error v => exact Leaves.terminated rfl hfile
              | returned more =>
                  exact ⟨fun _ => rfl, fun _ => hrunning, hfile⟩

theorem lsbInit_leaves {fmt : NumberFormat} {lsb : Sandbox}
    (stateFile : Option (List UInt8)) (o : InitOutcome)
    (h : lsb.state ≠ LsbState.terminated -> lsb.stack = []) :
    Leaves (lsbInit fmt lsb stateFile o).2.1 (lsbInit fmt lsb stateFile o).2.2
      (initLeaves lsb stateFile o) := by
  have hevents : forall (e : Event) (name more : List UInt8),
      e ∈ [Event.getglobal name, Event.pcall name, Event.setglobal more] ->
      OwnResults e := by
    intro e name more he
    simp only [List.mem_cons, List.not_mem_nil, or_false] at he
    rcases he with rfl | rfl | rfl <;> trivial
  unfold initLeaves
  fun_cases lsbInit fmt lsb stateFile o with
  | case1 hstate =>
      dsimp only
      rw [if_pos (Or.inl hstate)]
      exact Leaves.terminated rfl nofun
  | case2 hstate file halloc =>
      dsimp only
      rw [if_pos (Or.inr (Or.inl halloc))]
      exact Leaves.terminated rfl nofun
  | case3 hstate file halloc opened require events called hrequire =>
      dsimp only
      rw [if_pos (Or.inr (Or.inr hrequire))]
      refine Leaves.terminated rfl (fun e he => hevents e require [] ?_)
      cases List.mem_singleton.mp he
      exact List.mem_cons_self
  | case4 hstate file halloc opened require events called hrequire calls v
      hbase =>
      dsimp only
      rw [hbase, ite_self]
      refine Leaves.terminated rfl (fun e he => hevents e require [] ?_)
      exact List.mem_append_left [_] he
  | case5 hstate file halloc opened require events called hrequire calls _
      hbase prints ready err last later hchunk =>
      have hne : ¬ (lsb.state ≠ LsbState.unknown ∨
          file.isSome = true ∧ o.allocated = false ∨
          o.require.isCFunction = false) := by
        simp only [not_or]
        exact ⟨hstate, halloc, hrequire⟩
      have hopened : opened.stack = [] := by
        have hempty := h (by rw [not_not.mp hstate]; nofun)
        change (if file.isSome then _ else _ : Sandbox).stack = []
        split
        · exact hempty
        · exact hempty
      have hfile : opened.stateFile = file.or lsb.stateFile := by
        change (if file.isSome then _ else _ : Sandbox).stateFile = _
        cases file <;> rfl
      have hready : ready.stack = [] := by
        change (opened.stack ++ [o.require]).dropLast = []
        rw [hopened]
        rfl
      have hleaves := runChunk_leaves fmt o hready
      change Leaves _ _ (chunkLeaves opened.stateFile o) at hleaves
      rw [hchunk, hfile] at hleaves
      dsimp only
      rw [if_neg hne, hbase]
      refine ⟨hleaves.stack, hleaves.running, fun e he => ?_⟩
      rcases List.mem_append.mp he with hfirst | hlater
      · exact hevents e require _ hfirst
      · exact hleaves.own e hlater

/-!
## Calls of the plugin's functions
-/

theorem pcallStack_all {stack : List Value} {nargs : Nat} (nresults : Nat)
    (r : CallResult) (h : stack.length = nargs + 1) :
    pcallStack stack nargs nresults r =
      match r with
      | CallResult.error v => [v]
      | CallResult.returned values => adjust nresults values := by
  unfold pcallStack
  rw [h, Nat.sub_self, List.take_zero]
  cases r <;> rfl

/-- The end of the function takes both results from the stack. -/
theorem readResults_balanced {fmt : NumberFormat} {hsb : HekaSandbox}
    (h : hsb.lsb.stack.length = 2) : Balanced (readResults fmt hsb).2 := by
  have hterminated : forall err, Balanced (hsb.terminate err) :=
    fun _ hne => absurd rfl hne
  have hcount : forall (t : HekaSandbox) status, t.lsb.stack = [] ->
      Balanced (countStatus t status).2 := by
    intro t status ht
    unfold countStatus
    split
    · exact fun hne => absurd rfl hne
    split
    · exact fun _ => ht
    split
    · exact fun _ => ht
    · exact fun _ => ht
  unfold readResults
  dsimp only
  rw [h]
  split
  · exact hterminated _
  split
  · exact hcount _ _ rfl
  · exact hcount _ _ rfl
  · exact hterminated _

theorem processMessage_leaves (fmt : NumberFormat) {hsb : HekaSandbox}
    {nargs : Nat} (msg : Option Nat) (r : CallResult)
    (hstate : hsb.lsb.state ≠ LsbState.terminated)
    (hstack : hsb.lsb.stack.length = nargs + 1) :
    Leaves (processMessage fmt hsb msg nargs r).2.1.lsb
      (processMessage fmt hsb msg nargs r).2.2
      (resultLeaves fmt hsb.type r) := by
  unfold resultLeaves
  unfold processMessage
  rw [pcallStack_all 2 r hstack]
  cases r with
  | error v =>
      have hcall : forall e, e ∈ [Event.pcall pmFuncName] -> OwnResults e := by
        intro e he
        cases List.mem_singleton.mp he
        trivial
      dsimp only
      split
      · exact ⟨fun _ => rfl, fun _ => hstate, hcall⟩
      · exact Leaves.terminated rfl hcall
  | returned values =>
      have hlength : (adjust 2 values).length = 2 := adjust_length 2 values
      refine Leaves.cons (Leaves.nothing ?_ ?_) trivial
      · exact readResults_balanced hlength
      · intro e he
        cases List.mem_singleton.mp he
        exact ⟨rfl, rfl⟩

/-- What setting up a call does to the stack. -/
theorem lsbPcallSetup_cases (lsb : Sandbox) (name : List UInt8) (f : Value) :
    (lsb.state = LsbState.terminated ∧
      lsbPcallSetup lsb name f = (some LsbErr.terminated, lsb, [])) ∨
    (lsb.state ≠ LsbState.terminated ∧ f.type ≠ LuaType.function ∧
      exists lsb', lsbPcallSetup lsb name f =
        (some LsbErr.lua, lsb', [Event.getglobal name])) ∨
    (lsb.state ≠ LsbState.terminated ∧ f.type = LuaType.function ∧
      lsbPcallSetup lsb name f = (none,
        { lsb with hook := instructionHook lsb, stack := lsb.stack ++ [f] },
        [Event.getglobal name])) := by
  fun_cases lsbPcallSetup lsb name f with
  | case1 hstate => exact Or.inl ⟨hstate, rfl⟩
  | case2 hstate _ hf => exact Or.inr (Or.inl ⟨hstate, hf, _, rfl⟩)
  | case3 hstate _ hf => exact Or.inr (Or.inr ⟨hstate, not_not.mp hf, rfl⟩)

theorem getglobal_own {name : List UInt8} (e : Event)
    (he : e ∈ [Event.getglobal name]) : OwnResults e := by
  cases List.mem_singleton.mp he
  trivial

theorem Leaves.getglobal {lsb : Sandbox} {events : List Event}
    {left : List Value} {name : List UInt8} (h : Leaves lsb events left) :
    Leaves lsb ([Event.getglobal name] ++ events) left :=
  h.cons trivial

theorem resultLeaves_of_ne {fmt : NumberFormat} {type : PluginType}
    {r : CallResult} (h : type ≠ PluginType.input) :
    resultLeaves fmt type r = [] := by
  cases r with
  | error v => exact if_neg (fun hboth => h hboth.1)
  | returned values => rfl

/-- Other plugins leave no error on the stack. -/
theorem processMessage_leaves_nothing {fmt : NumberFormat}
    {hsb : HekaSandbox} {nargs : Nat} (msg : Option Nat) (r : CallResult)
    (htype : hsb.type ≠ PluginType.input)
    (hstate : hsb.lsb.state ≠ LsbState.terminated)
    (hstack : hsb.lsb.stack.length = nargs + 1) :
    Leaves (processMessage fmt hsb msg nargs r).2.1.lsb
      (processMessage fmt hsb msg nargs r).2.2 [] := by
  have hleaves := processMessage_leaves fmt msg r hstate hstack
  rw [resultLeaves_of_ne htype] at hleaves
  exact hleaves

theorem pmInput_leaves {fmt : NumberFormat} {hsb : HekaSandbox}
    (cpNumeric : Double) (cpString : Option (List UInt8)) (f : Value)
    (r : CallResult) (h : Balanced hsb) :
    Leaves (lsbHekaPmInput fmt hsb cpNumeric cpString f r).2.1.lsb
      (lsbHekaPmInput fmt hsb cpNumeric cpString f r).2.2
      (if hsb.lsb.state ≠ LsbState.terminated ∧
          f.type = LuaType.function then
        resultLeaves fmt hsb.type r
      else
        []) := by
  by_cases htype : hsb.type = PluginType.input
  · rcases lsbPcallSetup_cases hsb.lsb pmFuncName f with
      ⟨hstate, hsetup⟩ | ⟨hstate, hf, lsb', hsetup⟩ | ⟨hstate, hf, hsetup⟩
    · rw [if_neg (fun hboth => hboth.1 hstate)]
      unfold lsbHekaPmInput
      rw [if_neg (not_not.mpr htype), hsetup]
      exact Leaves.terminated hstate nofun
    · rw [if_neg (fun hboth => hf hboth.2)]
      unfold lsbHekaPmInput
      rw [if_neg (not_not.mpr htype), hsetup]
      exact Leaves.terminated rfl getglobal_own
    · rw [if_pos ⟨hstate, hf⟩]
      unfold lsbHekaPmInput
      rw [if_neg (not_not.mpr htype), hsetup]
      refine Leaves.getglobal (processMessage_leaves fmt _ _ ?_ ?_)
      · exact hstate
      · change (hsb.lsb.stack ++ [f] ++ [_]).length = 1 + 1
        rw [h hstate]
        rfl
  · rw [resultLeaves_of_ne htype, ite_self]
    unfold lsbHekaPmInput
    rw [if_pos htype]
    exact Leaves.nothing h nofun

theorem pmAnalysis_leaves {fmt : NumberFormat} {hsb : HekaSandbox}
    (msg : Option Nat) (f : Value) (r : CallResult) (h : Balanced hsb) :
    Leaves (lsbHekaPmAnalysis fmt hsb msg f r).2.1.lsb
      (lsbHekaPmAnalysis fmt hsb msg f r).2.2 [] := by
  unfold lsbHekaPmAnalysis
  split
  · exact Leaves.nothing h nofun
  rename_i hrefused
  have htype : hsb.type ≠ PluginType.input := by
    intro htype
    rw [htype] at hrefused
    exact hrefused (Or.inr nofun)
  rcases lsbPcallSetup_cases hsb.lsb pmFuncName f with
    ⟨hstate, hsetup⟩ | ⟨hstate, hf, lsb', hsetup⟩ | ⟨hstate, hf, hsetup⟩
  · rw [hsetup]
    exact Leaves.terminated rfl nofun
  · rw [hsetup]
    exact Leaves.terminated rfl getglobal_own
  · rw [hsetup]
    refine Leaves.getglobal (processMessage_leaves_nothing _ _ ?_ ?_ ?_)
    · exact htype
    · exact hstate
    · change (hsb.lsb.stack ++ [f]).length = 0 + 1
      rw [h hstate]
      rfl

theorem pmOutput_leaves {fmt : NumberFormat} {hsb : HekaSandbox}
    (msg sequenceId : Option Nat) (f : Value) (r : CallResult)
    (h : Balanced hsb) :
    Leaves (lsbHekaPmOutput fmt hsb msg sequenceId f r).2.1.lsb
      (lsbHekaPmOutput fmt hsb msg sequenceId f r).2.2 [] := by
  unfold lsbHekaPmOutput
  split
  · exact Leaves.nothing h nofun
  rename_i hrefused
  have htype : hsb.type ≠ PluginType.input := by
    intro htype
    rw [htype] at hrefused
    exact hrefused (Or.inr nofun)
  rcases lsbPcallSetup_cases hsb.lsb pmFuncName f with
    ⟨hstate, hsetup⟩ | ⟨hstate, hf, lsb', hsetup⟩ | ⟨hstate, hf, hsetup⟩
  · rw [hsetup]
    exact Leaves.terminated rfl nofun
  · rw [hsetup]
    exact Leaves.terminated rfl getglobal_own
  · rw [hsetup]
    cases sequenceId with
    | none =>
        refine Leaves.getglobal (processMessage_leaves_nothing _ _ ?_ ?_ ?_)
        · exact htype
        · exact hstate
        · change (hsb.lsb.stack ++ [f]).length = 0 + 1
          rw [h hstate]
          rfl
    | some id =>
        refine Leaves.getglobal (processMessage_leaves_nothing _ _ ?_ ?_ ?_)
        · exact htype
        · exact hstate
        · change (hsb.lsb.stack ++ [f] ++ [_]).length = 1 + 1
          rw [h hstate]
          rfl

theorem timerEvent_leaves {fmt : NumberFormat} {hsb : HekaSandbox} (t : Int)
    (shutdown : Bool) (f : Value) (r : CallResult) (h : Balanced hsb) :
    Leaves (lsbHekaTimerEvent fmt hsb t shutdown f r).2.1.lsb
      (lsbHekaTimerEvent fmt hsb t shutdown f r).2.2 [] := by
  unfold lsbHekaTimerEvent
  split
  · exact Leaves.nothing h nofun
  rcases lsbPcallSetup_cases hsb.lsb teFuncName f with
    ⟨hstate, hsetup⟩ | ⟨hstate, hf, lsb', hsetup⟩ | ⟨hstate, hf, hsetup⟩
  · rw [hsetup]
    exact Leaves.terminated rfl nofun
  · rw [hsetup]
    exact Leaves.terminated rfl getglobal_own
  · have hcalls : forall e, e ∈ [Event.getglobal teFuncName] ++
        [Event.pcall teFuncName] -> OwnResults e := by
      intro e he
      rcases List.mem_cons.mp he with rfl | hrest
      · trivial
      · cases List.mem_singleton.mp hrest
        trivial
    rw [hsetup]
    cases r with
    | error v => exact Leaves.terminated rfl hcalls
    | returned values =>
        refine Leaves.nothing (fun _ => ?_) hcalls
        change pcallStack (hsb.lsb.stack ++ [f] ++
          [Value.number (Double.ofInt (t * 10 ^ 9))] ++
          [Value.boolean shutdown]) 2 0 (CallResult.returned values) = []
        rw [h hstate, pcallStack_all 0 _ rfl]
        exact List.eq_nil_of_length_eq_zero (adjust_length 0 values)

/-- What every call leaves on the stack of a balanced sandbox. -/
theorem entryCall_leaves (fmt : NumberFormat) {hsb : HekaSandbox}
    (c : EntryCall) (h : Balanced hsb) :
    Leaves (c.run fmt hsb).1.lsb (c.run fmt hsb).2 (leaves fmt hsb c) := by
  cases c with
  | init stateFile o => exact lsbInit_leaves stateFile o h
  | pmInput cpNumeric cpString f r =>
      exact pmInput_leaves cpNumeric cpString f r h
  | pmAnalysis msg f r => exact pmAnalysis_leaves msg f r h
  | pmOutput msg sequenceId f r => exact pmOutput_leaves msg sequenceId f r h
  | timerEvent t shutdown f r => exact timerEvent_leaves t shutdown f r h

/-!
## Runs
-/

section

variable {fmt : NumberFormat}

theorem entryRun_snoc {hsb : HekaSandbox} {before : List EntryCall}
    (c : EntryCall) :
    (entryRun fmt hsb (before ++ [c])).1 =
      (c.run fmt (entryRun fmt hsb before).1).1 := by
  induction before generalizing hsb with
  | nil => rfl
  | cons d before ih => exact ih

/-- A run in which nothing is left on the stack keeps it balanced. -/
theorem entryRun_balanced {calls : List EntryCall} :
    forall {hsb : HekaSandbox}, Balanced hsb -> NothingLeft fmt hsb calls ->
      Balanced (entryRun fmt hsb calls).1 ∧
        forall e, e ∈ (entryRun fmt hsb calls).2 -> OwnResults e := by
  induction calls with
  | nil => exact fun h _ => ⟨h, nofun⟩
  | cons c calls ih =>
      intro hsb h hleft
      have hstep := entryCall_leaves fmt c h
      have hfirst : leaves fmt hsb c = [] := hleft [] c calls rfl
      rw [hfirst] at hstep
      have hrest : NothingLeft fmt (c.run fmt hsb).1 calls := by
        rintro before d after rfl
        exact hleft (c :: before) d after rfl
      have hlater := ih hstep.stack hrest
      refine ⟨hlater.1, fun e he => ?_⟩
      rcases List.mem_append.mp he with hnow | hthen
      · exact hstep.own e hnow
      · exact hlater.2 e hthen

end

end Heka
end LuaSandbox
