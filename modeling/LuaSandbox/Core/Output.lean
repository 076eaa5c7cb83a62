import LuaSandbox.Lua.Access
import LuaSandbox.Util.OutputText

/-!
# The output function

The values that a plugin adds to the output buffer of its sandbox.
-/

namespace LuaSandbox
namespace Core

open Foundation
open Lua
open Util

/-- How a function that the sandbox gives to a plugin fails: an argument is
refused, an error with a text is raised, an error of a Lua function goes on, or
a recursion does not end. -/
inductive ApiError where
  | argument (index : Nat) (text : List UInt8)
  | message (text : List UInt8)
  | raised (v : Value)
  | depth
  deriving DecidableEq

/-- Output changes the buffer. -/
abbrev Output (α : Type) : Type := Computation ApiError WriteState α

/-- Whether a writer ends without an error. -/
def attemptWrite (x : Writer Unit) : Output Bool :=
  Computation.ofFun (fun s =>
    match x.run s with
    | (Except.ok _, t) => (Except.ok true, t)
    | (Except.error _, t) => (Except.ok false, t))

section

variable (P : Plugin) (format : Double.Value -> List UInt8) (L : LuaState)

/-- The argument with the index `i`; `false` stands for an error value. -/
def outputValue (i : Nat) (v : Value) : Output Bool :=
  match v with
  | Value.number d => attemptWrite (Writer.lsbOutputd format d.value)
  | Value.string s => attemptWrite (lsbOutputs s)
  | Value.nil => attemptWrite (lsbOutputs (ascii "nil"))
  | Value.boolean b =>
      attemptWrite (Writer.lsbOutputf
        (if b then ascii "true" else ascii "false"))
  | Value.userdata _ =>
      match P.output L v with
      | none => throw (ApiError.argument i (ascii "unknown userdata type"))
      | some (Except.error _) => pure false
      | some (Except.ok text) => attemptWrite (lsbOutputs text)
  | _ => throw (ApiError.argument i (ascii "unsupported type"))

/-- The arguments from the index `i` on, up to the first error value. -/
def outputValues : Nat -> List Value -> Output Bool
  | _, [] => pure true
  | i, v :: vs => do
      let written <- outputValue P format L i v
      if written then outputValues (i + 1) vs else pure false

/-- The error of a buffer that is full has the last text of the sandbox, if
there is one. -/
def outputError (errorMessage : List UInt8) : ApiError :=
  if errorMessage = [] then ApiError.message (ascii "output_limit exceeded")
  else ApiError.message errorMessage

/-- Text is added to the contents, or replaces them. -/
def startOutput (append : Bool) : Output Unit :=
  Computation.ofFun (fun s =>
    (Except.ok (), if append then s else { s with ob := s.ob.clear }))

/-- The arguments from the index `start` on. -/
def lsbOutputCoroutine (errorMessage : List UInt8) (start : Nat)
    (args : List Value) (append : Bool) : Output Unit := do
  startOutput append
  let written <- outputValues P format L start args
  if written then pure () else throw (outputError errorMessage)

/-!
## What is written
-/

/-- The text of an argument, if there is one. -/
def outputText (v : Value) : Option (List UInt8) :=
  match v with
  | Value.number d => some (Writer.outputdText format d.value)
  | Value.string s => some s
  | Value.nil => some (ascii "nil")
  | Value.boolean b => some (if b then ascii "true" else ascii "false")
  | Value.userdata _ =>
      match P.output L v with
      | some (Except.ok text) => some text
      | _ => none
  | _ => none

/-- The texts that find room behind `pos` bytes, up to the first argument that
does not. -/
def accepted (capacity : Nat) : Nat -> List Value -> List (List UInt8)
  | _, [] => []
  | pos, v :: vs =>
      match outputText P format L v with
      | some text =>
          if pos + (text.length + 1) <= capacity then
            text :: accepted capacity (pos + text.length) vs
          else
            []
      | none => []

end

section

variable (P : Plugin) (format : Double.Value -> List UInt8) (L : LuaState)
  {s : WriteState}

/-- An argument is written as a whole, or nothing of it is. -/
inductive OutputOutcome (s : WriteState) (text : Option (List UInt8)) :
    Except ApiError Bool × WriteState -> Prop where
  | written {t xs} :
      text = some xs ->
      Emitted (Piece.text xs) s t ->
      Fits (Piece.text xs) s ->
      OutputOutcome s text (Except.ok true, t)
  | refused {r t} :
      (forall xs, text = some xs -> ¬ Fits (Piece.text xs) s) ->
      r ≠ Except.ok true ->
      Emitted Piece.empty s t ->
      OutputOutcome s text (r, t)

theorem attemptWrite_outcome {x : Writer Unit} {text : List UInt8}
    (h : WritesText x text) (halloc : s.MemoryAvailable) :
    OutputOutcome s (some text) ((attemptWrite x).run s) := by
  unfold attemptWrite
  rw [Computation.run_ofFun]
  generalize hrun : x.run s = r
  rcases r with ⟨e | a, t⟩
  · refine OutputOutcome.refused ?_ nofun (h.kept hrun)
    intro xs hxs
    cases hxs
    exact h.emits.error hrun halloc
  · rcases h.emits.ok hrun with ⟨hemitted, hfits⟩
    exact OutputOutcome.written rfl hemitted hfits

theorem outputOutcome_none {r : Except ApiError Bool}
    (h : r ≠ Except.ok true) : OutputOutcome s none (r, s) :=
  OutputOutcome.refused nofun h (Emitted.refl s)

theorem outputValue_outcome (i : Nat) (v : Value)
    (halloc : s.MemoryAvailable) :
    OutputOutcome s (outputText P format L v)
      ((outputValue P format L i v).run s) := by
  unfold outputValue outputText
  cases v with
  | number d =>
      exact attemptWrite_outcome (writesText_outputd format d.value) halloc
  | string xs => exact attemptWrite_outcome (writesText_outputs xs) halloc
  | nil => exact attemptWrite_outcome (writesText_outputs _) halloc
  | boolean b => exact attemptWrite_outcome (writesText_outputf _) halloc
  | userdata u =>
      dsimp only
      rcases P.output L (Value.userdata u) with _ | e | text
      · exact outputOutcome_none nofun
      · exact outputOutcome_none nofun
      · exact attemptWrite_outcome (writesText_outputs text) halloc
  | table | function | cfunction | lightuserdata | thread =>
      exact outputOutcome_none nofun

theorem accepted_written {v : Value} {xs : List UInt8} {vs : List Value}
    (htext : outputText P format L v = some xs)
    (hfits : Fits (Piece.text xs) s) :
    accepted P format L s.ob.capacity s.ob.pos (v :: vs) =
      xs :: accepted P format L s.ob.capacity (s.ob.pos + xs.length) vs := by
  rw [accepted, htext]
  exact if_pos hfits

theorem accepted_refused {v : Value} {vs : List Value}
    (h : forall xs, outputText P format L v = some xs ->
      ¬ Fits (Piece.text xs) s) :
    accepted P format L s.ob.capacity s.ob.pos (v :: vs) = [] := by
  rw [accepted]
  split
  · rename_i xs htext
    exact if_neg (h xs htext)
  · rfl

/-- The buffer after a run over the arguments, and whether all were written. -/
structure Outputs (s : WriteState) (args : List Value)
    (texts : List (List UInt8)) (r : Except ApiError Bool) (t : WriteState) :
    Prop where
  contents : t.ob.contents = s.ob.contents ++ texts.flatten
  maxsize : t.ob.maxsize = s.ob.maxsize
  alloc : t.alloc = s.alloc
  all : r = Except.ok true <-> texts.length = args.length

theorem outputValues_outputs (args : List Value) :
    forall (i : Nat) (s : WriteState), s.MemoryAvailable ->
      exists r t, (outputValues P format L i args).run s = (r, t) ∧
        Outputs s args (accepted P format L s.ob.capacity s.ob.pos args)
          r t := by
  induction args with
  | nil =>
      intro i s _
      exact ⟨Except.ok true, s, rfl, (List.append_nil _).symm, rfl, rfl,
        iff_of_true rfl rfl⟩
  | cons v vs ih =>
      intro i s halloc
      have houtcome := outputValue_outcome P format L i v halloc
      generalize hrun : (outputValue P format L i v).run s = x at houtcome
      unfold outputValues
      cases houtcome with
      | written htext hemitted hfits =>
          rename_i t xs
          rw [Computation.run_bind_ok hrun,
            accepted_written P format L htext hfits]
          have halloc' : t.MemoryAvailable := by
            intro n
            rw [hemitted.alloc]
            exact halloc n
          rcases ih (i + 1) t halloc' with ⟨r, u, hrest, houtputs⟩
          rw [hemitted.capacity, hemitted.pos] at houtputs
          refine ⟨r, u, hrest, ?_, ?_, ?_, ?_⟩
          · rw [houtputs.contents, hemitted.contents, List.flatten_cons,
              List.append_assoc]
            rfl
          · exact houtputs.maxsize.trans hemitted.maxsize
          · exact houtputs.alloc.trans hemitted.alloc
          · rw [List.length_cons, List.length_cons, Nat.add_right_cancel_iff]
            exact houtputs.all
      | refused hfull hne hkept =>
          rename_i r t
          rw [accepted_refused P format L hfull]
          have hend : forall r', r' ≠ Except.ok true ->
              Outputs s (v :: vs) [] r' t := fun r' hne' =>
            ⟨hkept.contents, hkept.maxsize, hkept.alloc,
              iff_of_false hne' nofun⟩
          rcases r with e | written
          · exact ⟨_, t, Computation.run_bind_error hrun, hend _ nofun⟩
          · cases written with
            | true => exact absurd rfl hne
            | false =>
                exact ⟨_, t, Computation.run_bind_ok hrun, hend _ nofun⟩

/-- The arguments are added in their order while they find room; an error means
that one was refused. -/
theorem lsbOutputCoroutine_outputs (errorMessage : List UInt8)
    (start : Nat) (args : List Value) (halloc : s.MemoryAvailable) :
    exists r t, (lsbOutputCoroutine P format L errorMessage start args
        true).run s = (r, t) ∧
      t.ob.contents = s.ob.contents ++
        (accepted P format L s.ob.capacity s.ob.pos args).flatten ∧
      t.ob.maxsize = s.ob.maxsize ∧
      (r = Except.ok () <->
        (accepted P format L s.ob.capacity s.ob.pos args).length =
          args.length) := by
  rcases outputValues_outputs P format L args start s halloc with
    ⟨r, t, hrun, houtputs⟩
  have hstart : (startOutput true).run s = (Except.ok (), s) := rfl
  unfold lsbOutputCoroutine
  rw [Computation.run_bind_ok hstart]
  have hall := houtputs.all
  rcases r with e | written
  · refine ⟨_, t, Computation.run_bind_error hrun, houtputs.contents,
      houtputs.maxsize, ?_⟩
    rw [← hall]
    exact iff_of_false nofun nofun
  · rw [Computation.run_bind_ok hrun]
    cases written with
    | false =>
        refine ⟨_, t, rfl, houtputs.contents, houtputs.maxsize, ?_⟩
        rw [← hall]
        exact iff_of_false nofun nofun
    | true =>
        exact ⟨_, t, rfl, houtputs.contents, houtputs.maxsize,
          iff_of_true rfl (hall.mp rfl)⟩

end

end Core
end LuaSandbox
