import LuaSandbox.Heka.EncodeMessage

/-!
# More fuel

A run of the encoder that has not used up its fuel is the run with more fuel.
-/

namespace LuaSandbox
namespace Heka

open Foundation
open Foundation.Computation (Extends)
open Lua
open Util
open Core

/-- More fuel takes `x` to `y`. -/
abbrev Continues {α : Type} (x y : Enc α) : Prop := Extends Stop.depth x y

section

variable {x y : Enc Unit}

theorem continues_attempt (h : Continues x y) :
    Continues (attempt x) (attempt y) := by
  intro s
  unfold attempt
  rw [Computation.run_ofFun, Computation.run_ofFun]
  rcases h s with ⟨t, hstop⟩ | hsame
  · rw [hstop]
    exact Or.inl ⟨t, rfl⟩
  · rw [hsame]
    exact Or.inr rfl

theorem continues_onlyIf {p : Prop} [Decidable p] (h : Continues x y) :
    Continues (onlyIf p x) (onlyIf p y) := by
  unfold onlyIf
  split
  · exact h
  · exact Extends.refl _

theorem continues_record (tag : Nat) (h : Continues x y) :
    Continues (encodeFieldRecord tag x) (encodeFieldRecord tag y) :=
  (Extends.refl _).bind (fun _ => (Extends.refl _).bind (fun _ =>
    (Extends.refl _).bind (fun _ => h.bind (fun _ => Extends.refl _))))

theorem continues_elements {value value' : Int -> Value -> Enc Unit}
    (h : forall first v, Continues (value first v) (value' first v))
    (a : Nat) (t : LuaType) (n : Nat) :
    forall idx, Continues (encodeElements value a t n idx)
      (encodeElements value' a t n idx) := by
  induction n with
  | zero =>
      intro idx
      exact Extends.refl _
  | succ n ih =>
      intro idx
      unfold encodeElements
      apply (Extends.refl _).bind
      intro L
      dsimp only
      split
      · exact Extends.refl _
      · exact (h 0 _).bind (fun _ => ih (idx + 1))

theorem continues_array {value value' : Int -> Value -> Enc Unit}
    (h : forall first v, Continues (value first v) (value' first v))
    (a : Nat) (valueType : Int) (e : Value) :
    Continues (encodeFieldArray value a valueType e)
      (encodeFieldArray value' a valueType e) := by
  unfold encodeFieldArray
  apply (Extends.refl _).bind
  intro L
  apply (h _ e).bind
  intro _
  apply (Extends.refl _).bind
  intro lenPos
  exact (continues_elements h a e.type _ 2).bind (fun _ => Extends.refl _)

section

variable (env : EncodeEnv)

theorem continues_object
    {value value' : Option (List UInt8) -> Int -> Value -> Enc Unit}
    (h : forall representation valueType v,
      Continues (value representation valueType v)
        (value' representation valueType v)) (obj : Value) :
    Continues (encodeFieldObject env value obj)
      (encodeFieldObject env value' obj) :=
  (Extends.refl _).bind (fun _ => (Extends.refl _).bind (fun _ =>
    (Extends.refl _).bind (fun _ => h _ _ _)))

theorem continues_value (n : Nat) :
    forall below first representation valueType v,
      Continues (encodeFieldValue env n below first representation valueType v)
        (encodeFieldValue env (n + 1) below first representation valueType
          v) := by
  induction n with
  | zero =>
      intro below first representation valueType v
      exact Extends.throw _
  | succ n ih =>
      intro below first representation valueType v
      cases v with
      | table t =>
          unfold encodeFieldValue
          apply (Extends.refl _).bind
          intro L
          dsimp only
          split
          · exact continues_object env (ih (Value.table t) 1) _
          · exact continues_array (fun first v => ih _ first _ _ v) t _ _
          · exact continues_array (fun first v => ih _ first _ _ v) t _ _
          · exact continues_array (fun first v => ih _ first _ _ v) t _ _
          · exact Extends.refl _
      | nil | boolean | lightuserdata | number | string | function | cfunction
      | userdata | thread => exact Extends.refl _

theorem continues_objects (tag f n : Nat) :
    forall i e, Continues (encodeFieldObjects env tag f n i e)
      (encodeFieldObjects env tag f (n + 1) i e) := by
  induction n with
  | zero =>
      intro i e
      exact Extends.throw _
  | succ n ih =>
      intro i e
      unfold encodeFieldObjects
      refine (continues_record tag ?_).bind (fun _ => ?_)
      · exact (Extends.refl _).bind (fun _ => (Extends.refl _).bind (fun _ =>
          continues_object env (continues_value env n e 1) e))
      · exact (Extends.refl _).bind (fun _ => continues_onlyIf (ih _ _))

theorem continues_entries (tag : Nat) (below : Value) (f n : Nat) :
    forall k, Continues (encodeFieldEntries env tag below f n k)
      (encodeFieldEntries env tag below f (n + 1) k) := by
  induction n with
  | zero =>
      intro k
      exact Extends.throw _
  | succ n ih =>
      intro k
      unfold encodeFieldEntries
      apply (Extends.refl _).bind
      intro e
      cases e with
      | none => exact Extends.refl _
      | some e =>
          refine (continues_record tag ?_).bind (fun _ => ih _)
          exact (Extends.refl _).bind
            (fun _ => continues_value env n below 1 none (-1) e.2)

theorem continues_fields (n tag : Nat) (name : String) (below t : Value) :
    Continues (encodeFields env n tag name below t)
      (encodeFields env (n + 1) tag name below t) := by
  unfold encodeFields
  apply (Extends.refl _).bind
  intro fields
  split
  · rename_i f
    apply (Extends.refl _).bind
    intro L
    dsimp only
    split
    · exact continues_objects env tag f n 1 _
    · exact continues_entries env tag below f n Value.nil
  · exact Extends.refl _

theorem continues_sections (n : Nat) (ts : Int) (below t : Value) :
    Continues (encodeSections env n ts below t)
      (encodeSections env (n + 1) ts below t) := by
  unfold encodeSections encodeRecords
  refine Extends.bind ?_ (fun _ => Extends.refl _)
  exact (Extends.refl _).bind (fun _ => (Extends.refl _).bind (fun _ =>
    (Extends.refl _).bind (fun _ => (Extends.refl _).bind (fun _ =>
      (Extends.refl _).bind (fun _ => (Extends.refl _).bind (fun _ =>
        (Extends.refl _).bind (fun _ => (Extends.refl _).bind (fun _ =>
          (Extends.refl _).bind (fun _ =>
            continues_fields env n _ _ below t)))))))))

theorem continues_message (cfg : HekaConfig) {n m : Nat} (hle : n <= m)
    (below t : Value) :
    Continues (hekaEncodeMessageTable env cfg n below t)
      (hekaEncodeMessageTable env cfg m below t) := by
  induction hle with
  | refl => exact Extends.refl _
  | step _ ih =>
      apply ih.trans
      unfold hekaEncodeMessageTable
      exact (Extends.refl _).bind (fun ts =>
        (continues_attempt (continues_sections env _ ts below t)).bind
          (fun _ => Extends.refl _))

end

end

end Heka
end LuaSandbox
