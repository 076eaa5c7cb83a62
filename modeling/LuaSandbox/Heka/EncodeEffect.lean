import LuaSandbox.Heka.EncodeMessage

/-!
# The effect of encoding

What holds of every primitive step of the encoder holds of the encoder.
-/

namespace LuaSandbox
namespace Heka

open Foundation
open Lua
open Util
open Core

/-!
## Primitive steps
-/

/-- A writer that stops in its first part does not get to the second one. -/
theorem write_bind {α β : Type} (x : Writer α) (f : α -> Writer β) :
    write (x >>= f) = write x >>= fun a => write (f a) := by
  funext s
  change (write (x >>= f)).run s = (write x >>= fun a => write (f a)).run s
  rw [Computation.run_bind]
  unfold write
  rw [Computation.run_ofFun, Computation.run_ofFun, Computation.run_bind]
  rcases x.run s.w with ⟨e | a, w⟩
  · rfl
  · rfl

theorem onlyIf_hasEffect {F : Effect EncState} {p : Prop} [Decidable p]
    {x : Enc Unit} (hx : HasEffect F x) : HasEffect F (onlyIf p x) :=
  HasEffect.ite hx (HasEffect.pure ())

/-- The steps of an encoder have an effect. -/
structure StepsHaveEffect (env : EncodeEnv) (F : Effect EncState) :
    Prop where
  put : forall (needed : Nat) (xs : List UInt8) (h : xs.length <= needed),
    HasEffect F (write (put needed xs h))
  update : forall lenPos, HasEffect F (write (lsbPbUpdateFieldLength lenPos))
  expand : HasEffect F (write (expand 1))
  outputs : forall s message e,
    HasEffect F (attempt (write (lsbOutputs s)) >>= fun r =>
      match r with
      | some _ => failWith message e
      | none => pure ())
  getfield : forall t name, HasEffect F (getfield env t name)
  next : forall f k, HasEffect F (access (fun L ob => (L.next f k, L, ob)))
  failWith : forall message e, HasEffect F (failWith message e : Enc Unit)
  depth : HasEffect F (throw Stop.depth : Enc Unit)

namespace StepsHaveEffect

variable {env : EncodeEnv} {F : Effect EncState}
  (h : StepsHaveEffect env F)

include h

theorem writeKey (tag wiretype : Nat) :
    HasEffect F (write (lsbPbWriteKey tag wiretype)) :=
  h.put _ _ _

theorem writeVarint (i : Nat) : HasEffect F (write (lsbPbWriteVarint i)) :=
  h.put _ _ _

theorem writeString (tag : Nat) (s : List UInt8) :
    HasEffect F (write (lsbPbWriteString tag s)) := by
  unfold lsbPbWriteString
  rw [write_bind]
  refine (h.writeKey _ _).bind (fun _ => ?_)
  rw [write_bind]
  exact (h.writeVarint _).bind (fun _ => h.put _ _ _)

/-!
## Headers and field values
-/

theorem encodeString (tag : Nat) (name : String) (t : Value) :
    HasEffect F (encodeString env tag name t) := by
  unfold Heka.encodeString
  refine (h.getfield t name).bind (fun v => ?_)
  split
  · exact h.writeString _ _
  · exact HasEffect.pure ()

theorem encodeInt (tag : Nat) (name : String) (t : Value) :
    HasEffect F (encodeInt env tag name t) := by
  unfold Heka.encodeInt
  refine (h.getfield t name).bind (fun v => ?_)
  split
  · exact (h.writeKey _ _).bind (fun _ => h.writeVarint _)
  · exact HasEffect.pure ()

theorem encodeRepresentation (representation : Option (List UInt8)) :
    HasEffect F (encodeRepresentation representation) := by
  unfold Heka.encodeRepresentation
  split
  · exact h.writeString _ _
  · exact HasEffect.pure ()

theorem encodeValueType (valueType : Nat) :
    HasEffect F (encodeValueType valueType) :=
  (h.writeKey _ _).bind (fun _ => h.writeVarint _)

theorem encodeStringValue (first : Int) (representation : Option (List UInt8))
    (valueType : Int) (s : List UInt8) :
    HasEffect F (encodeStringValue first representation valueType s) := by
  unfold Heka.encodeStringValue
  apply HasEffect.ite
  · exact h.failWith _ _
  · have hstart : HasEffect F (do
        onlyIf (valueType = lsbPbBytes) (Heka.encodeValueType 1)
        Heka.encodeRepresentation representation) :=
      (onlyIf_hasEffect (h.encodeValueType 1)).bind
        (fun _ => h.encodeRepresentation representation)
    exact (onlyIf_hasEffect hstart).bind
      (fun _ => HasEffect.ite (h.writeString _ _) (h.writeString _ _))

theorem encodeNumberKey (first valueType : Int) :
    HasEffect F (encodeNumberKey first valueType) := by
  unfold Heka.encodeNumberKey
  apply HasEffect.ite
  · exact HasEffect.ite (h.writeKey _ _) (h.writeKey _ _)
  · apply HasEffect.ite
    · exact (h.writeKey _ _).bind (fun _ => h.writeVarint _)
    · exact (h.writeKey _ _).bind (fun _ => h.writeVarint _)

theorem encodeNumberValue (first : Int) (representation : Option (List UInt8))
    (valueType : Int) (d : Double) :
    HasEffect F (encodeNumberValue first representation valueType d) := by
  unfold Heka.encodeNumberValue
  apply HasEffect.ite
  · exact h.failWith _ _
  · refine (onlyIf_hasEffect ?_).bind (fun _ => ?_)
    · exact (h.encodeValueType _).bind (fun _ =>
        (h.encodeRepresentation _).bind (fun _ => h.encodeNumberKey _ _))
    · exact HasEffect.ite (h.writeVarint _) (h.put _ _ _)

theorem encodeBooleanKey (first : Int) :
    HasEffect F (encodeBooleanKey first) := by
  unfold Heka.encodeBooleanKey
  apply HasEffect.ite
  · exact h.writeKey _ _
  · exact (h.writeKey _ _).bind (fun _ => h.writeVarint _)

theorem encodeBooleanValue (first : Int)
    (representation : Option (List UInt8)) (valueType : Int) (b : Bool) :
    HasEffect F (encodeBooleanValue first representation valueType b) := by
  unfold Heka.encodeBooleanValue
  apply HasEffect.ite
  · exact h.failWith _ _
  · refine (onlyIf_hasEffect ?_).bind (fun _ => ?_)
    · exact (h.encodeValueType _).bind (fun _ =>
        (h.encodeRepresentation _).bind (fun _ => h.encodeBooleanKey _))
    · exact h.put _ _ _

theorem lengthPrefixed {contents : Enc Unit}
    (hcontents : HasEffect F contents) :
    HasEffect F (lengthPrefixed contents) :=
  (HasEffect.read _).bind (fun lenPos => (h.writeVarint _).bind
    (fun _ => hcontents.bind (fun _ => h.update lenPos)))

theorem encodeOutput (text : Except Int (List UInt8)) :
    HasEffect F (encodeOutput text) := by
  unfold Heka.encodeOutput
  split
  · exact h.failWith _ _
  · exact h.outputs _ _ _

theorem encodeUserdata (first : Int) (representation : Option (List UInt8))
    (v : Value) : HasEffect F (encodeUserdata env first representation v) := by
  unfold Heka.encodeUserdata
  refine (HasEffect.read _).bind (fun L => ?_)
  split
  · exact h.failWith _ _
  · refine (onlyIf_hasEffect ?_).bind (fun _ => ?_)
    · exact (h.encodeValueType _).bind (fun _ => h.encodeRepresentation _)
    · exact (h.writeKey _ _).bind
        (fun _ => h.lengthPrefixed (h.encodeOutput _))

/-!
## Arrays and objects
-/

theorem encodeElements {value : Int -> Value -> Enc Unit}
    (hvalue : forall first v, HasEffect F (value first v)) (a : Nat)
    (t : LuaType) (n : Nat) :
    forall idx, HasEffect F (encodeElements value a t n idx) := by
  induction n with
  | zero =>
      intro idx
      exact HasEffect.pure ()
  | succ n ih =>
      intro idx
      unfold Heka.encodeElements
      refine (HasEffect.read _).bind (fun L => ?_)
      apply HasEffect.ite
      · exact h.failWith _ _
      · exact (hvalue _ _).bind (fun _ => ih _)

theorem encodePackedLength (lenPos : Nat) :
    HasEffect F (encodePackedLength lenPos) := by
  unfold Heka.encodePackedLength
  refine (HasEffect.read _).bind (fun buf => ?_)
  split
  · exact h.failWith _ _
  · exact h.update _

theorem encodeFieldArray {value : Int -> Value -> Enc Unit}
    (hvalue : forall first v, HasEffect F (value first v)) (a : Nat)
    (valueType : Int) (e : Value) :
    HasEffect F (encodeFieldArray value a valueType e) := by
  unfold Heka.encodeFieldArray
  refine (HasEffect.read _).bind (fun L => (hvalue _ _).bind (fun _ => ?_))
  exact (HasEffect.read _).bind (fun lenPos =>
    (h.encodeElements hvalue _ _ _ _).bind
      (fun _ => onlyIf_hasEffect (h.encodePackedLength lenPos)))

theorem encodeFieldObject
    {value : Option (List UInt8) -> Int -> Value -> Enc Unit}
    (hvalue : forall r t v, HasEffect F (value r t v)) (obj : Value) :
    HasEffect F (encodeFieldObject env value obj) :=
  (h.getfield _ _).bind (fun _ => (h.getfield _ _).bind (fun _ =>
    (h.getfield _ _).bind (fun _ => hvalue _ _ _)))

theorem encodeFieldValue (n : Nat) :
    forall (below : Value) (first : Int)
      (representation : Option (List UInt8)) (valueType : Int) (v : Value),
      HasEffect F
        (encodeFieldValue env n below first representation valueType v) := by
  induction n with
  | zero =>
      intro below first representation valueType v
      exact h.depth
  | succ n ih =>
      intro below first representation valueType v
      unfold Heka.encodeFieldValue
      split
      · exact h.encodeStringValue _ _ _ _
      · exact h.encodeNumberValue _ _ _ _
      · exact h.encodeBooleanValue _ _ _ _
      · refine (HasEffect.read _).bind (fun L => ?_)
        dsimp only
        split
        · exact h.encodeFieldObject (ih _ _) _
        · exact h.encodeFieldArray (fun _ _ => ih _ _ _ _ _) _ _ _
        · exact h.encodeFieldArray (fun _ _ => ih _ _ _ _ _) _ _ _
        · exact h.encodeFieldArray (fun _ _ => ih _ _ _ _ _) _ _ _
        · exact h.failWith _ _
      · refine (h.getfield _ _).bind (fun u => ?_)
        exact HasEffect.ite (h.failWith _ _) (h.encodeUserdata _ _ _)
      · exact h.encodeUserdata _ _ _
      · exact h.failWith _ _

/-!
## Fields
-/

theorem encodeFieldRecord {contents : Enc Unit}
    (hcontents : HasEffect F contents) (tag : Nat) :
    HasEffect F (encodeFieldRecord tag contents) :=
  (h.writeKey _ _).bind (fun _ => h.lengthPrefixed hcontents)

theorem encodeName (name : Value) : HasEffect F (encodeName env name) := by
  unfold Heka.encodeName
  split
  · exact h.writeString _ _
  · exact h.failWith _ _

theorem encodeFieldObjects (tag f n : Nat) :
    forall i e, HasEffect F (encodeFieldObjects env tag f n i e) := by
  induction n with
  | zero =>
      intro i e
      exact h.depth
  | succ n ih =>
      intro i e
      unfold Heka.encodeFieldObjects
      have hcontents : HasEffect F (do
          let name <- Heka.getfield env e "name"
          Heka.encodeName env name
          Heka.encodeFieldObject env (Heka.encodeFieldValue env n e 1) e) :=
        (h.getfield _ _).bind (fun _ => (h.encodeName _).bind (fun _ =>
          h.encodeFieldObject (h.encodeFieldValue n _ _) _))
      exact (h.encodeFieldRecord hcontents tag).bind (fun _ =>
        (HasEffect.read _).bind (fun L => onlyIf_hasEffect (ih _ _)))

theorem encodeFieldEntries (tag : Nat) (below : Value) (f n : Nat) :
    forall k, HasEffect F (encodeFieldEntries env tag below f n k) := by
  induction n with
  | zero =>
      intro k
      exact h.depth
  | succ n ih =>
      intro k
      unfold Heka.encodeFieldEntries
      refine (h.next f k).bind (fun e => ?_)
      split
      · exact HasEffect.pure ()
      · exact (h.encodeFieldRecord ((h.encodeName _).bind (fun _ =>
          h.encodeFieldValue n _ _ _ _ _)) tag).bind (fun _ => ih _)

theorem encodeFields (fuel tag : Nat) (name : String) (below t : Value) :
    HasEffect F (encodeFields env fuel tag name below t) := by
  unfold Heka.encodeFields
  refine (h.getfield _ _).bind (fun fields => ?_)
  split
  · refine (HasEffect.read _).bind (fun L => ?_)
    exact HasEffect.ite (h.encodeFieldObjects _ _ _ _ _)
      (h.encodeFieldEntries _ _ _ _ _)
  · exact HasEffect.pure ()

theorem encodeRecords (fuel : Nat) (ts : Int) (below t : Value) :
    HasEffect F (encodeRecords env fuel ts below t) :=
  (h.writeKey _ _).bind (fun _ => (h.writeVarint _).bind (fun _ =>
    (h.encodeString _ _ _).bind (fun _ => (h.encodeString _ _ _).bind (fun _ =>
    (h.encodeInt _ _ _).bind (fun _ => (h.encodeString _ _ _).bind (fun _ =>
    (h.encodeString _ _ _).bind (fun _ => (h.encodeInt _ _ _).bind (fun _ =>
    (h.encodeString _ _ _).bind
      (fun _ => h.encodeFields _ _ _ _ _)))))))))

theorem encodeSections (fuel : Nat) (ts : Int) (below t : Value) :
    HasEffect F (encodeSections env fuel ts below t) :=
  (h.encodeRecords _ _ _ _).bind (fun _ => h.expand)

end StepsHaveEffect

end Heka
end LuaSandbox
