import LuaSandbox.Foundation.Fuel
import LuaSandbox.Heka.EncodeBounds
import LuaSandbox.Heka.EncodeFuel
import LuaSandbox.Heka.EncodeSound

/-!
# When encoding ends

The encoder follows the values of field objects without a limit.  It ends if and
only if the loop over the fields takes finitely many turns and every value that
it gets to leads, object by object, to something that is not an object.
-/

namespace LuaSandbox
namespace Heka

open Foundation
open Foundation.Computation (Completes Total Ends Fueled Turn)
open Lua
open Util
open Core
open Relation (ReflTransGen)

/-- An encoder that does not ask for fuel. -/
abbrev NoDepth {α : Type} (x : Enc α) : Prop := Total Stop.depth x

/-!
## Encoders without recursion
-/

section

theorem noDepth_write {α : Type} (x : Writer α) : NoDepth (write x) := by
  intro s t h
  unfold write at h
  rw [Computation.run_ofFun] at h
  split at h <;> cases h

theorem noDepth_access {α : Type} (f : LuaState -> OutputBuffer -> Accessed α) :
    NoDepth (access f) := by
  intro s t h
  unfold access at h
  rw [Computation.run_ofFun] at h
  dsimp only at h
  split at h <;> cases h

theorem noDepth_failWith {α : Type} (message : List UInt8) (e : LsbErr) :
    NoDepth (failWith message e : Enc α) := by
  intro s t h
  cases h

theorem noDepth_getLua : NoDepth getLua := by
  intro s t h
  cases h

theorem noDepth_getPos : NoDepth getPos := by
  intro s t h
  cases h

theorem noDepth_getBuf : NoDepth getBuf := by
  intro s t h
  cases h

theorem noDepth_onlyIf {p : Prop} [Decidable p] {x : Enc Unit}
    (hx : NoDepth x) : NoDepth (onlyIf p x) :=
  Total.ite hx (Total.pure ())

theorem completes_attempt {x : Enc Unit} {s : EncState} :
    Completes Stop.depth (attempt x) s <-> Completes Stop.depth x s := by
  unfold Completes attempt
  rw [Computation.run_ofFun]
  split
  · rename_i hrun
    rw [hrun]
    exact iff_of_true (fun t h => nomatch h) (fun t h => nomatch h)
  · rename_i hrun
    rw [hrun]
    exact iff_of_true (fun t h => nomatch h) (fun t h => nomatch h)
  · rename_i stop t _ hrun
    rw [hrun]
    constructor
    · intro h u hstop
      cases hstop
      exact h _ rfl
    · intro h u hstop
      cases hstop
      exact h _ rfl

theorem noDepth_attempt {x : Enc Unit} (hx : NoDepth x) :
    NoDepth (attempt x) :=
  fun s => completes_attempt.mpr (hx s)

variable (env : EncodeEnv)

theorem noDepth_getfield (t : Value) (name : String) :
    NoDepth (getfield env t name) :=
  noDepth_access _

theorem noDepth_setfield (t : Value) (name : String) (value : Value) :
    NoDepth (setfield env t name value) :=
  noDepth_access _

theorem noDepth_encodeString (tag : Nat) (name : String) (t : Value) :
    NoDepth (encodeString env tag name t) := by
  refine (noDepth_getfield env t name).bind (fun v => ?_)
  split
  · exact noDepth_write _
  · exact Total.pure ()

theorem noDepth_encodeInt (tag : Nat) (name : String) (t : Value) :
    NoDepth (encodeInt env tag name t) := by
  refine (noDepth_getfield env t name).bind (fun v => ?_)
  split
  · exact (noDepth_write _).bind (fun _ => noDepth_write _)
  · exact Total.pure ()

theorem noDepth_setMissing (t : Value) (name : String)
    (value : Option Value) : NoDepth (setMissing env t name value) := by
  refine (noDepth_getfield env t name).bind (fun v => ?_)
  split
  · exact noDepth_setfield env t name _
  · exact Total.pure ()

theorem noDepth_encodePrologue (cfg : HekaConfig) (t : Value) :
    NoDepth (encodePrologue env cfg t) := by
  refine (noDepth_write _).bind (fun _ => Total.ite ?_ ?_)
  · exact (noDepth_write _).bind (fun _ =>
      (noDepth_setfield env t _ _).bind (fun _ =>
        (noDepth_setfield env t _ _).bind (fun _ =>
          (noDepth_setfield env t _ _).bind (fun _ => Total.pure _))))
  · exact (noDepth_getfield env t _).bind (fun _ =>
      (noDepth_attempt (noDepth_write _)).bind (fun _ =>
        (noDepth_getfield env t _).bind (fun _ =>
          ((noDepth_setMissing env t _ _).bind (fun _ =>
            (noDepth_setMissing env t _ _).bind (fun _ =>
              noDepth_setMissing env t _ _))).bind (fun _ => Total.pure _))))

/-!
## Values without recursion
-/

theorem noDepth_encodeRepresentation (representation : Option (List UInt8)) :
    NoDepth (encodeRepresentation representation) := by
  unfold encodeRepresentation
  split
  · exact noDepth_write _
  · exact Total.pure ()

theorem noDepth_encodeValueType (valueType : Nat) :
    NoDepth (encodeValueType valueType) :=
  (noDepth_write _).bind (fun _ => noDepth_write _)

theorem noDepth_lengthPrefixed {contents : Enc Unit} (h : NoDepth contents) :
    NoDepth (lengthPrefixed contents) :=
  noDepth_getPos.bind (fun _ => (noDepth_write _).bind (fun _ =>
    h.bind (fun _ => noDepth_write _)))

theorem noDepth_encodeStringValue (first : Int)
    (representation : Option (List UInt8)) (valueType : Int)
    (s : List UInt8) :
    NoDepth (encodeStringValue first representation valueType s) := by
  refine Total.ite (noDepth_failWith _ _) ?_
  refine (noDepth_onlyIf ?_).bind
    (fun _ => Total.ite (noDepth_write _) (noDepth_write _))
  exact (noDepth_onlyIf (noDepth_encodeValueType 1)).bind
    (fun _ => noDepth_encodeRepresentation representation)

theorem noDepth_encodeNumberKey (first valueType : Int) :
    NoDepth (encodeNumberKey first valueType) := by
  have hpair : forall x y : Writer Unit,
      NoDepth (write x >>= fun _ => write y) :=
    fun x y => (noDepth_write x).bind (fun _ => noDepth_write y)
  refine Total.ite ?_ (Total.ite (hpair _ _) (hpair _ _))
  exact Total.ite (noDepth_write _) (noDepth_write _)

theorem noDepth_encodeNumberValue (first : Int)
    (representation : Option (List UInt8)) (valueType : Int) (d : Double) :
    NoDepth (encodeNumberValue first representation valueType d) := by
  refine Total.ite (noDepth_failWith _ _) ?_
  refine (noDepth_onlyIf ?_).bind
    (fun _ => Total.ite (noDepth_write _) (noDepth_write _))
  exact (noDepth_encodeValueType _).bind (fun _ =>
    (noDepth_encodeRepresentation _).bind (fun _ =>
      noDepth_encodeNumberKey _ _))

theorem noDepth_encodeBooleanValue (first : Int)
    (representation : Option (List UInt8)) (valueType : Int) (b : Bool) :
    NoDepth (encodeBooleanValue first representation valueType b) := by
  refine Total.ite (noDepth_failWith _ _) ?_
  refine (noDepth_onlyIf ?_).bind (fun _ => noDepth_write _)
  refine (noDepth_encodeValueType 4).bind (fun _ =>
    (noDepth_encodeRepresentation _).bind (fun _ => Total.ite ?_ ?_))
  · exact noDepth_write _
  · exact (noDepth_write _).bind (fun _ => noDepth_write _)

theorem noDepth_encodeOutput (text : Except Int (List UInt8)) :
    NoDepth (encodeOutput text) := by
  unfold encodeOutput
  split
  · exact noDepth_failWith _ _
  · refine (noDepth_attempt (noDepth_write _)).bind (fun r => ?_)
    split
    · exact noDepth_failWith _ _
    · exact Total.pure ()

theorem noDepth_encodeUserdata (first : Int)
    (representation : Option (List UInt8)) (v : Value) :
    NoDepth (encodeUserdata env first representation v) := by
  refine noDepth_getLua.bind (fun L => ?_)
  split
  · exact noDepth_failWith _ _
  · refine (noDepth_onlyIf ?_).bind (fun _ => (noDepth_write _).bind (fun _ =>
      noDepth_lengthPrefixed (noDepth_encodeOutput _)))
    exact (noDepth_encodeValueType 1).bind
      (fun _ => noDepth_encodeRepresentation representation)

theorem noDepth_encodePackedLength (lenPos : Nat) :
    NoDepth (encodePackedLength lenPos) := by
  refine noDepth_getBuf.bind (fun buf => ?_)
  split
  · exact noDepth_failWith _ _
  · exact noDepth_write _

theorem noDepth_encodeElements {value : Int -> Value -> Enc Unit}
    {t : LuaType} (h : forall v, v.type = t -> NoDepth (value 0 v)) (a n : Nat) :
    forall idx, NoDepth (encodeElements value a t n idx) := by
  induction n with
  | zero =>
      intro idx
      exact Total.pure ()
  | succ n ih =>
      intro idx
      unfold encodeElements
      refine noDepth_getLua.bind (fun L => ?_)
      dsimp only
      split
      · exact noDepth_failWith _ _
      · rename_i htype
        exact (h _ (not_not.mp htype)).bind (fun _ => ih (idx + 1))

theorem noDepth_encodeFieldArray {value : Int -> Value -> Enc Unit} {e : Value}
    (h : forall first v, v.type = e.type -> NoDepth (value first v)) (a : Nat)
    (valueType : Int) : NoDepth (encodeFieldArray value a valueType e) :=
  noDepth_getLua.bind (fun _ => (h _ e rfl).bind (fun _ =>
    noDepth_getPos.bind (fun _ =>
      (noDepth_encodeElements (h 0) a _ 2).bind (fun _ =>
        noDepth_onlyIf (noDepth_encodePackedLength _)))))

theorem noDepth_encodeName (name : Value) : NoDepth (encodeName env name) := by
  unfold encodeName
  split
  · exact noDepth_write _
  · exact noDepth_failWith _ _

end

/-!
## Field values
-/

section

variable (env : EncodeEnv)

/-- The representation, the value type and the value of an object. -/
def objectAccesses (obj : Value) : Enc (Value × Value × Value) := do
  let representation <- getfield env obj "representation"
  let valueType <- getfield env obj "value_type"
  let v <- getfield env obj "value"
  pure (representation, valueType, v)

theorem noDepth_objectAccesses (obj : Value) :
    NoDepth (objectAccesses env obj) :=
  (noDepth_getfield env obj _).bind (fun _ =>
    (noDepth_getfield env obj _).bind (fun _ =>
      (noDepth_getfield env obj _).bind (fun _ => Total.pure _)))

theorem encodeFieldObject_eq
    (value : Option (List UInt8) -> Int -> Value -> Enc Unit) (obj : Value) :
    encodeFieldObject env value obj =
      objectAccesses env obj >>= fun a =>
        value (objectRepresentation env a.1) (objectValueType env a.2.1)
          a.2.2 := by
  unfold encodeFieldObject objectAccesses
  rw [bind_assoc]
  congr 1
  funext r
  rw [bind_assoc]
  congr 1
  funext w
  rw [bind_assoc]
  congr 1

/-- From a table that is taken for a field object to its value. -/
inductive ValueStep : EncState × Value -> EncState × Value -> Prop where
  | object {s s' : EncState} {t : Nat} {r w v : Value} :
      s.lua.rawgeti t 1 = Value.nil ->
      (objectAccesses env (Value.table t)).run s =
        (Except.ok (r, w, v), s') ->
      ValueStep (s, Value.table t) (s', v)

/-- The values of field objects lead to something that is not an object. -/
def ChainEnds (x : EncState × Value) : Prop :=
  Acc (fun y x => ValueStep env x y) x

/-- With the fuel `n` for what is inside, a value is encoded to its end. -/
def ValueCompletes (n : Nat) (s : EncState) : Value -> Prop
  | Value.table t =>
      match (s.lua.rawgeti t 1).type with
      | LuaType.nil =>
          Completes Stop.depth (encodeFieldObject env
            (encodeFieldValue env n (Value.table t) 1) (Value.table t)) s
      | LuaType.number | LuaType.string | LuaType.boolean => n ≠ 0
      | _ => True
  | _ => True

theorem noDepth_scalar {n : Nat} {v : Value}
    (hv : v.type = LuaType.number ∨ v.type = LuaType.string ∨
      v.type = LuaType.boolean) (below : Value) (first : Int)
    (representation : Option (List UInt8)) (valueType : Int) :
    NoDepth (encodeFieldValue env (n + 1) below first representation valueType
      v) := by
  unfold encodeFieldValue
  cases v with
  | number d => exact noDepth_encodeNumberValue _ _ _ d
  | string s => exact noDepth_encodeStringValue _ _ _ s
  | boolean b => exact noDepth_encodeBooleanValue _ _ _ b
  | nil | lightuserdata | table | function | cfunction | userdata | thread =>
      rcases hv with hv | hv | hv <;> cases hv

theorem array_completes_iff {n t : Nat} {e v : Value}
    {representation : Option (List UInt8)} {valueType : Int} {s : EncState}
    (he : e.type = LuaType.number ∨ e.type = LuaType.string ∨
      e.type = LuaType.boolean) :
    Completes Stop.depth (encodeFieldArray (fun first => encodeFieldValue env n v
      first representation valueType) t valueType e) s <-> n ≠ 0 := by
  cases n with
  | zero =>
      refine iff_of_false (fun h => ?_) (not_not.mpr rfl)
      exact h s rfl
  | succ n =>
      refine iff_of_true ?_ (Nat.succ_ne_zero n)
      refine noDepth_encodeFieldArray (fun first w hw => ?_) t valueType s
      exact noDepth_scalar env (hw ▸ he) v first representation valueType

theorem completes_value {n : Nat} {below v : Value} {first : Int}
    {representation : Option (List UInt8)} {valueType : Int} {s : EncState} :
    Completes Stop.depth (encodeFieldValue env (n + 1) below first
      representation valueType v) s <-> ValueCompletes env n s v := by
  unfold encodeFieldValue
  cases v with
  | table t =>
      have hlua : getLua.run s = (Except.ok s.lua, s) := rfl
      unfold Completes
      rw [Computation.run_bind_ok hlua]
      dsimp only
      split
      · rename_i htype
        unfold ValueCompletes
        dsimp only
        rw [htype]
        exact Iff.rfl
      · rename_i htype
        unfold ValueCompletes
        dsimp only
        rw [htype]
        exact array_completes_iff env (Or.inl htype)
      · rename_i htype
        unfold ValueCompletes
        dsimp only
        rw [htype]
        exact array_completes_iff env (Or.inr (Or.inl htype))
      · rename_i htype
        unfold ValueCompletes
        dsimp only
        rw [htype]
        exact array_completes_iff env (Or.inr (Or.inr htype))
      · rename_i type hnil hnumber hstring hboolean
        refine iff_of_true (noDepth_failWith _ _ s) ?_
        unfold ValueCompletes
        dsimp only
        split
        · exact absurd ‹_› hnil
        · exact absurd ‹_› hnumber
        · exact absurd ‹_› hstring
        · exact absurd ‹_› hboolean
        · trivial
  | string b =>
      exact iff_of_true (noDepth_encodeStringValue _ _ _ b s) trivial
  | number d =>
      exact iff_of_true (noDepth_encodeNumberValue _ _ _ d s) trivial
  | boolean b =>
      exact iff_of_true (noDepth_encodeBooleanValue _ _ _ b s) trivial
  | userdata u =>
      exact iff_of_true (noDepth_encodeUserdata env _ _ _ s) trivial
  | lightuserdata p =>
      refine iff_of_true ?_ trivial
      refine (noDepth_getfield env below "userdata").bind (fun u => ?_) s
      exact Total.ite (noDepth_failWith _ _) (noDepth_encodeUserdata env _ _ u)
  | nil | function | cfunction | thread =>
      exact iff_of_true (noDepth_failWith _ _ s) trivial

theorem not_completes_zero {below v : Value} {first : Int}
    {representation : Option (List UInt8)} {valueType : Int} {s : EncState} :
    ¬ Completes Stop.depth (encodeFieldValue env 0 below first representation
      valueType v) s :=
  fun h => h s rfl

/-- What is handed down with a value does not matter. -/
theorem completes_congr {n : Nat} {below below' v : Value}
    {first first' : Int} {representation representation' : Option (List UInt8)}
    {valueType valueType' : Int} {s : EncState}
    (h : Completes Stop.depth (encodeFieldValue env n below first
      representation valueType v) s) :
    Completes Stop.depth (encodeFieldValue env n below' first' representation'
      valueType' v) s := by
  cases n with
  | zero => exact absurd h (not_completes_zero env)
  | succ n => exact (completes_value env).mpr ((completes_value env).mp h)

/-- The step: what a value needs is that its value ends. -/
theorem completes_of_step {n : Nat} {s : EncState} {v : Value}
    {y : EncState × Value}
    (h : Completes Stop.depth (encodeFieldValue env (n + 1) Value.nil 1 none
      (-1) v) s) (hstep : ValueStep env (s, v) y) :
    Completes Stop.depth (encodeFieldValue env n Value.nil 1 none (-1) y.2)
      y.1 := by
  cases hstep with
  | object helement haccesses =>
      have hvalue := (completes_value env).mp h
      unfold ValueCompletes at hvalue
      dsimp only at hvalue
      rw [helement, encodeFieldObject_eq] at hvalue
      have hrest := ((noDepth_objectAccesses env _).completes_bind.mp hvalue)
        _ _ haccesses
      exact completes_congr env hrest

theorem completes_of_steps {s : EncState} {v : Value}
    (h : forall y, ValueStep env (s, v) y -> exists n,
      Completes Stop.depth (encodeFieldValue env n Value.nil 1 none (-1) y.2)
        y.1) :
    exists n, Completes Stop.depth (encodeFieldValue env n Value.nil 1 none
      (-1) v) s := by
  by_cases hobject : exists t, v = Value.table t ∧
    s.lua.rawgeti t 1 = Value.nil
  · rcases hobject with ⟨t, rfl, helement⟩
    have hvalue : forall n, ValueCompletes env n s (Value.table t) <->
        forall a s', (objectAccesses env (Value.table t)).run s =
            (Except.ok a, s') ->
          Completes Stop.depth (encodeFieldValue env n (Value.table t) 1
            (objectRepresentation env a.1) (objectValueType env a.2.1) a.2.2)
            s' := by
      intro n
      unfold ValueCompletes
      dsimp only
      rw [helement, encodeFieldObject_eq]
      exact (noDepth_objectAccesses env _).completes_bind
    cases hrun : (objectAccesses env (Value.table t)).run s with
    | mk r s' =>
        cases r with
        | error e =>
            refine ⟨1, (completes_value env).mpr ((hvalue 0).mpr ?_)⟩
            intro a u hok
            rw [hrun] at hok
            cases hok
        | ok a =>
            rcases h _ (ValueStep.object helement hrun) with ⟨n, hn⟩
            refine ⟨n + 1, (completes_value env).mpr ((hvalue n).mpr ?_)⟩
            intro b u hok
            rw [hrun] at hok
            cases hok
            exact completes_congr env hn
  · -- there is at most one level of array elements
    refine ⟨2, (completes_value env).mpr ?_⟩
    unfold ValueCompletes
    split
    · rename_i t
      split
      · rename_i htype
        refine absurd ⟨t, rfl, ?_⟩ hobject
        cases helement : s.lua.rawgeti t 1 with
        | nil => rfl
        | _ =>
            rw [helement] at htype
            cases htype
      · exact Nat.one_ne_zero
      · exact Nat.one_ne_zero
      · exact Nat.one_ne_zero
      · trivial
    · trivial

/-- A value is encoded to an end if and only if the chain of the values behind
it ends. -/
theorem value_ends_iff {below v : Value} {first : Int}
    {representation : Option (List UInt8)} {valueType : Int} {s : EncState} :
    Ends Stop.depth (fun n => encodeFieldValue env n below first representation
      valueType v) s <-> ChainEnds env (s, v) := by
  have hacc := @Computation.exists_iff_acc (EncState × Value) (ValueStep env)
    (fun n x => Completes Stop.depth (encodeFieldValue env n Value.nil 1 none
      (-1) x.2) x.1) (fun _ => True)
    (fun x => not_completes_zero env)
    (fun n x h => ⟨trivial, fun y hy => completes_of_step env h hy⟩)
    (fun x _ h => completes_of_steps env h) (s, v)
  rw [and_iff_left (fun _ _ => trivial)] at hacc
  refine Iff.trans ?_ hacc
  exact ⟨fun ⟨n, h⟩ => ⟨n, completes_congr env h⟩,
    fun ⟨n, h⟩ => ⟨n, completes_congr env h⟩⟩

end

/-!
## Field records
-/

/-- A record up to its value. -/
def recordStart {α : Type} (tag : Nat) (start : Enc α) : Enc (Nat × α) := do
  write (lsbPbWriteKey tag lsbPbWtLength)
  let lenPos <- getPos
  write (lsbPbWriteVarint 0)
  let a <- start
  pure (lenPos, a)

theorem noDepth_recordStart {α : Type} (tag : Nat) {start : Enc α}
    (h : NoDepth start) : NoDepth (recordStart tag start) :=
  (noDepth_write _).bind (fun _ => noDepth_getPos.bind (fun _ =>
    (noDepth_write _).bind (fun _ => h.bind (fun _ => Total.pure _))))

theorem encodeFieldRecord_eq {α : Type} (tag : Nat) (start : Enc α)
    (value : α -> Enc Unit) :
    encodeFieldRecord tag (start >>= value) =
      recordStart tag start >>= fun a => value a.2 >>= fun _ =>
        write (lsbPbUpdateFieldLength a.1) := by
  unfold encodeFieldRecord lengthPrefixed recordStart
  simp only [bind_assoc, pure_bind]

/-- A record ends if its value does. -/
theorem record_ends_iff {α : Type} {tag : Nat} {start : Enc α}
    (hstart : NoDepth start) {value : Nat -> α -> Enc Unit} {s : EncState} :
    Ends Stop.depth (fun n => encodeFieldRecord tag (start >>= value n)) s <->
      forall a s', (recordStart tag start).run s = (Except.ok a, s') ->
        Ends Stop.depth (fun n => value n a.2) s' := by
  simp only [encodeFieldRecord_eq]
  refine (noDepth_recordStart tag hstart).ends_bind.trans ?_
  refine forall_congr' (fun a => forall_congr' (fun s' => ?_))
  exact imp_congr_right (fun _ =>
    Computation.ends_bind_total (fun _ => noDepth_write _))

section

variable (env : EncodeEnv) (tag : Nat) (below : Value) (f : Nat)

/-!
## Hashes of fields
-/

/-- What one turn of the loop over the entries does behind the key. -/
def entryBody (x : EncState × Value) (n : Nat) : Enc Unit :=
  match x.1.lua.next f x.2 with
  | Except.ok (some (k, v)) =>
      encodeFieldRecord tag (encodeName env k >>= fun _ =>
        encodeFieldValue env n below 1 none (-1) v)
  | _ => pure ()

/-- Where the loop goes on. -/
def entryAfter (x : EncState × Value) (t : EncState) :
    Option (EncState × Value) :=
  match x.1.lua.next f x.2 with
  | Except.ok (some (k, _)) => some (t, convertedKey env k)
  | _ => none

abbrev EntryTurn : EncState × Value -> EncState × Value -> Prop :=
  Turn Prod.fst (entryBody env tag below f) (entryAfter env f)

/-- The loop gets to a value. -/
def EntryValue (x z : EncState × Value) : Prop :=
  exists k a, x.1.lua.next f x.2 = Except.ok (some (k, z.2)) ∧
    (recordStart tag (encodeName env k)).run x.1 = (Except.ok a, z.1)

/-- The loop takes finitely many turns, and the values that it gets to end. -/
def EntriesEnd (x : EncState × Value) : Prop :=
  Acc (fun z y => EntryTurn env tag below f y z) x ∧
    forall y, ReflTransGen (EntryTurn env tag below f) x y ->
      forall z, EntryValue env tag f y z -> ChainEnds env z

theorem entryBody_fueled (x : EncState × Value) :
    Fueled Stop.depth (entryBody env tag below f x) := by
  intro n
  unfold entryBody
  split
  · exact continues_record tag ((Computation.Extends.refl _).bind
      (fun _ => continues_value env n below 1 none (-1) _))
  · exact Computation.Extends.refl _

theorem entryBody_ends_iff (x : EncState × Value) :
    Ends Stop.depth (entryBody env tag below f x) x.1 <->
      forall z, EntryValue env tag f x z -> ChainEnds env z := by
  unfold entryBody EntryValue
  split
  · rename_i k v hnext
    refine (record_ends_iff (noDepth_encodeName env k)).trans ?_
    constructor
    · rintro h ⟨s', w⟩ ⟨k', a, hnext', hstart⟩
      rw [hnext] at hnext'
      cases hnext'
      exact (value_ends_iff env).mp (h a s' hstart)
    · intro h a s' hstart
      exact (value_ends_iff env).mpr (h (s', v) ⟨k, a, hnext, hstart⟩)
  · rename_i hnext
    refine iff_of_true ⟨0, Total.pure () _⟩ ?_
    rintro z ⟨k, a, hnext', _⟩
    exact absurd hnext' (hnext k z.2)

theorem run_access_next (s : EncState) (k : Value) :
    (access (fun L ob => (L.next f k, L, ob))).run s =
      match s.lua.next f k with
      | Except.ok e => (Except.ok e, s)
      | Except.error v => (Except.error (Stop.raised v), s) := by
  unfold access
  rw [Computation.run_ofFun]
  dsimp only
  cases s.lua.next f k with
  | ok e => rfl
  | error v => rfl

theorem entries_completes_iff (n : Nat) (x : EncState × Value) :
    Completes Stop.depth (encodeFieldEntries env tag below f (n + 1) x.2) x.1 <->
      Completes Stop.depth (entryBody env tag below f x n) x.1 ∧
        forall t y, (entryBody env tag below f x n).run x.1 =
            (Except.ok (), t) -> entryAfter env f x t = some y ->
          Completes Stop.depth (encodeFieldEntries env tag below f n y.2) y.1 := by
  have haccess := run_access_next f x.1 x.2
  conv_lhs => unfold encodeFieldEntries
  unfold entryBody entryAfter
  cases hnext : x.1.lua.next f x.2 with
  | error v =>
      rw [hnext] at haccess
      refine iff_of_true ?_ ⟨Total.pure () _, fun t y _ hy => by cases hy⟩
      intro t hstop
      rw [Computation.run_bind_error haccess] at hstop
      cases hstop
  | ok e =>
      rw [hnext] at haccess
      unfold Completes
      rw [Computation.run_bind_ok haccess]
      cases e with
      | none =>
          refine iff_of_true (Total.pure () _) ⟨Total.pure () _, ?_⟩
          exact fun t y _ hy => by cases hy
      | some e =>
          refine Computation.completes_bind.trans (and_congr_right (fun _ => ?_))
          constructor
          · intro h t y hrun hy
            cases hy
            exact h () t hrun
          · intro h _ t hrun
            exact h t _ hrun rfl

theorem entries_end_iff (x : EncState × Value) :
    Ends Stop.depth (fun n => encodeFieldEntries env tag below f n x.2) x.1 <->
      EntriesEnd env tag below f x := by
  have hloop := @Computation.loop_ends_iff Stop EncState (EncState × Value)
    Stop.depth Prod.fst (entryBody env tag below f) (entryAfter env f)
    (fun n x => Completes Stop.depth (encodeFieldEntries env tag below f n x.2)
      x.1) (entryBody_fueled env tag below f) (fun x h => h x.1 rfl)
    (fun n m x hle h => Fueled.completes_of_le
      (fun n => continues_entries env tag below f n x.2) hle h)
    (entries_completes_iff env tag below f) x
  refine hloop.trans (and_congr_right (fun _ => ?_))
  exact forall_congr' (fun y => imp_congr_right (fun _ =>
    entryBody_ends_iff env tag below f y))

/-!
## Arrays of field objects
-/

/-- The name of a field object, and the accesses to the object. -/
def objectStart (e : Value) : Enc (Value × Value × Value) := do
  let name <- getfield env e "name"
  encodeName env name
  objectAccesses env e

theorem noDepth_objectStart (e : Value) : NoDepth (objectStart env e) :=
  (noDepth_getfield env e _).bind (fun name =>
    (noDepth_encodeName env name).bind (fun _ => noDepth_objectAccesses env e))

/-- A turn of the loop over the objects: the state, the index and the object. -/
abbrev ObjectTurnState : Type := EncState × Int × Value

def objectBody (x : ObjectTurnState) (n : Nat) : Enc Unit :=
  encodeFieldRecord tag (objectStart env x.2.2 >>= fun a =>
    encodeFieldValue env n x.2.2 1 (objectRepresentation env a.1)
      (objectValueType env a.2.1) a.2.2)

def objectAfter (x : ObjectTurnState) (t : EncState) :
    Option ObjectTurnState :=
  let next := t.lua.rawgeti f (x.2.1 + 1)
  if next ≠ Value.nil then some (t, x.2.1 + 1, next) else none

abbrev ObjectTurn : ObjectTurnState -> ObjectTurnState -> Prop :=
  Turn Prod.fst (objectBody env tag) (objectAfter f)

/-- The loop gets to the value of an object. -/
def ObjectValue (x : ObjectTurnState) (z : EncState × Value) : Prop :=
  exists lenPos r w, (recordStart tag (objectStart env x.2.2)).run x.1 =
    (Except.ok (lenPos, r, w, z.2), z.1)

/-- The loop takes finitely many turns, and the values that it gets to end. -/
def ObjectsEnd (x : ObjectTurnState) : Prop :=
  Acc (fun z y => ObjectTurn env tag f y z) x ∧
    forall y, ReflTransGen (ObjectTurn env tag f) x y ->
      forall z, ObjectValue env tag y z -> ChainEnds env z

theorem objectBody_fueled (x : ObjectTurnState) :
    Fueled Stop.depth (objectBody env tag x) :=
  fun n => continues_record tag ((Computation.Extends.refl _).bind
    (fun _ => continues_value env n x.2.2 1 _ _ _))

theorem objectBody_ends_iff (x : ObjectTurnState) :
    Ends Stop.depth (objectBody env tag x) x.1 <->
      forall z, ObjectValue env tag x z -> ChainEnds env z := by
  refine (record_ends_iff (noDepth_objectStart env x.2.2)).trans ?_
  constructor
  · rintro h ⟨s', v⟩ ⟨lenPos, r, w, hstart⟩
    exact (value_ends_iff env).mp (h _ _ hstart)
  · rintro h ⟨lenPos, r, w, v⟩ s' hstart
    exact (value_ends_iff env).mpr (h (s', v) ⟨lenPos, r, w, hstart⟩)

theorem objectRecord_eq (x : ObjectTurnState) (n : Nat) :
    encodeFieldRecord tag (do
        let name <- getfield env x.2.2 "name"
        encodeName env name
        encodeFieldObject env (encodeFieldValue env n x.2.2 1) x.2.2) =
      objectBody env tag x n := by
  unfold objectBody objectStart
  simp only [encodeFieldObject_eq, bind_assoc]

theorem objects_completes_iff (n : Nat) (x : ObjectTurnState) :
    Completes Stop.depth (encodeFieldObjects env tag f (n + 1) x.2.1 x.2.2)
        x.1 <->
      Completes Stop.depth (objectBody env tag x n) x.1 ∧
        forall t y, (objectBody env tag x n).run x.1 = (Except.ok (), t) ->
            objectAfter f x t = some y ->
          Completes Stop.depth (encodeFieldObjects env tag f n y.2.1 y.2.2)
            y.1 := by
  conv_lhs => unfold encodeFieldObjects
  rw [objectRecord_eq env tag x n]
  refine Computation.completes_bind.trans (and_congr_right (fun _ => ?_))
  have hrest : forall t, Completes Stop.depth (getLua >>= fun L =>
      onlyIf (L.rawgeti f (x.2.1 + 1) ≠ Value.nil) (encodeFieldObjects env tag f
        n (x.2.1 + 1) (L.rawgeti f (x.2.1 + 1)))) t <->
      forall y, objectAfter f x t = some y ->
        Completes Stop.depth (encodeFieldObjects env tag f n y.2.1 y.2.2)
          y.1 := by
    intro t
    have hlua : getLua.run t = (Except.ok t.lua, t) := rfl
    unfold Completes
    rw [Computation.run_bind_ok hlua]
    unfold objectAfter
    dsimp only
    split
    · rename_i hnext
      rw [onlyIf_pos hnext]
      constructor
      · intro h y hy
        cases hy
        exact h
      · exact fun h => h _ rfl
    · rename_i hnext
      rw [onlyIf_neg hnext]
      exact iff_of_true (Total.pure () t) (fun y hy => by cases hy)
  constructor
  · exact fun h t y hrun hy => (hrest t).mp (h () t hrun) y hy
  · exact fun h _ t hrun => (hrest t).mpr (fun y hy => h t y hrun hy)

theorem objects_end_iff (x : ObjectTurnState) :
    Ends Stop.depth (fun n => encodeFieldObjects env tag f n x.2.1 x.2.2)
        x.1 <->
      ObjectsEnd env tag f x := by
  have hloop := @Computation.loop_ends_iff Stop EncState ObjectTurnState
    Stop.depth Prod.fst (objectBody env tag) (objectAfter f)
    (fun n x => Completes Stop.depth (encodeFieldObjects env tag f n x.2.1
      x.2.2) x.1) (objectBody_fueled env tag) (fun x h => h x.1 rfl)
    (fun n m x hle h => Fueled.completes_of_le
      (fun n => continues_objects env tag f n x.2.1 x.2.2) hle h)
    (objects_completes_iff env tag f) x
  refine hloop.trans (and_congr_right (fun _ => ?_))
  exact forall_congr' (fun y => imp_congr_right (fun _ =>
    objectBody_ends_iff env tag y))

end

/-!
## Messages
-/

section

variable (env : EncodeEnv)

/-- The fields of a message table are taken to an end. -/
def FieldsEnd (tag : Nat) (name : String) (below t : Value) (s : EncState) :
    Prop :=
  forall f s', (getfield env t name).run s = (Except.ok (Value.table f), s') ->
    if (s'.lua.rawgeti f 1).type = LuaType.table then
      ObjectsEnd env tag f (s', 1, s'.lua.rawgeti f 1)
    else
      EntriesEnd env tag below f (s', Value.nil)

theorem fields_end_iff (tag : Nat) (name : String) (below t : Value)
    (s : EncState) :
    Ends Stop.depth (fun n => encodeFields env n tag name below t) s <->
      FieldsEnd env tag name below t s := by
  unfold encodeFields FieldsEnd
  refine (noDepth_getfield env t name).ends_bind.trans ?_
  have htable : forall f s', Ends Stop.depth (fun n => getLua >>= fun L =>
      if (L.rawgeti f 1).type = LuaType.table then
        encodeFieldObjects env tag f n 1 (L.rawgeti f 1)
      else
        encodeFieldEntries env tag below f n Value.nil) s' <->
      if (s'.lua.rawgeti f 1).type = LuaType.table then
        ObjectsEnd env tag f (s', 1, s'.lua.rawgeti f 1)
      else
        EntriesEnd env tag below f (s', Value.nil) := by
    intro f s'
    refine noDepth_getLua.ends_bind.trans ?_
    have hlua : getLua.run s' = (Except.ok s'.lua, s') := rfl
    constructor
    · intro h
      have hends := h _ _ hlua
      split
      · rename_i htype
        simp only [if_pos htype] at hends
        exact (objects_end_iff env tag f (s', 1, _)).mp hends
      · rename_i htype
        simp only [if_neg htype] at hends
        exact (entries_end_iff env tag below f (s', Value.nil)).mp hends
    · rintro h L u hrun
      cases hlua.symm.trans hrun
      split at h
      · rename_i htype
        simp only [if_pos htype]
        exact (objects_end_iff env tag f (s', 1, _)).mpr h
      · rename_i htype
        simp only [if_neg htype]
        exact (entries_end_iff env tag below f (s', Value.nil)).mpr h
  constructor
  · intro h f s' hget
    exact (htable f s').mp (h _ s' hget)
  · intro h v s' hget
    by_cases hv : exists f, v = Value.table f
    · rcases hv with ⟨f, rfl⟩
      exact (htable f s').mpr (h f s' hget)
    · refine ⟨0, ?_⟩
      split
      · rename_i f
        exact absurd ⟨f, rfl⟩ hv
      · exact Total.pure () s'

/-- The records in front of the fields. -/
def encodeHeaders (ts : Int) (t : Value) : Enc Unit := do
  write (lsbPbWriteKey lsbPbTimestamp lsbPbWtVarint)
  write (lsbPbWriteVarint (ofLongLong ts))
  encodeString env lsbPbType "Type" t
  encodeString env lsbPbLogger "Logger" t
  encodeInt env lsbPbSeverity "Severity" t
  encodeString env lsbPbPayload "Payload" t
  encodeString env lsbPbEnvVersion "EnvVersion" t
  encodeInt env lsbPbPid "Pid" t
  encodeString env lsbPbHostname "Hostname" t

theorem noDepth_encodeHeaders (ts : Int) (t : Value) :
    NoDepth (encodeHeaders env ts t) :=
  (noDepth_write _).bind (fun _ => (noDepth_write _).bind (fun _ =>
    (noDepth_encodeString env _ _ t).bind (fun _ =>
      (noDepth_encodeString env _ _ t).bind (fun _ =>
        (noDepth_encodeInt env _ _ t).bind (fun _ =>
          (noDepth_encodeString env _ _ t).bind (fun _ =>
            (noDepth_encodeString env _ _ t).bind (fun _ =>
              (noDepth_encodeInt env _ _ t).bind (fun _ =>
                noDepth_encodeString env _ _ t))))))))

theorem encodeSections_eq (n : Nat) (ts : Int) (below t : Value) :
    encodeSections env n ts below t =
      encodeHeaders env ts t >>= fun _ =>
        encodeFields env n lsbPbFields "Fields" below t >>= fun _ =>
          write (expand 1) := by
  unfold encodeSections encodeRecords encodeHeaders
  simp only [bind_assoc]

/-- The encoder gets to the fields of a message table. -/
def GetsToFields (cfg : HekaConfig) (t : Value) (s s1 : EncState) : Prop :=
  exists ts s0, (encodePrologue env cfg t).run s = (Except.ok ts, s0) ∧
    (encodeHeaders env ts t).run s0 = (Except.ok (), s1)

/-- The sections behind the prologue, and what closes the message. -/
theorem sections_end_iff (ts : Int) (below t : Value) (s : EncState) :
    Ends Stop.depth
        (fun n => attempt (encodeSections env n ts below t) >>= fun ret => do
          terminateMessage
          match ret with
          | none => pure ()
          | some e => throw (Stop.err e)) s <->
      forall u s1, (encodeHeaders env ts t).run s = (Except.ok u, s1) ->
        FieldsEnd env lsbPbFields "Fields" below t s1 := by
  refine (Computation.ends_bind_total (fun ret => ?_)).trans ?_
  · refine (noDepth_getPos.bind (fun _ => noDepth_write _)).bind
      (fun _ => ?_)
    split
    · exact Total.pure ()
    · intro u v hstop
      cases hstop
  · refine (exists_congr (fun _ => completes_attempt)).trans ?_
    simp only [encodeSections_eq]
    refine (noDepth_encodeHeaders env ts t).ends_bind.trans ?_
    refine forall_congr' (fun _ => forall_congr' (fun s1 =>
      imp_congr_right (fun _ => ?_)))
    refine (Computation.ends_bind_total (fun _ => noDepth_write _)).trans ?_
    exact fields_end_iff env lsbPbFields "Fields" below t s1

theorem run_getfield_plain {s : EncState} {t : Nat} (hplain : s.lua.Plain)
    (name : String) : (getfield env (Value.table t) name).run s =
      (Except.ok ((s.lua.tables t).get (luaString name)), s) := by
  unfold getfield access
  rw [Computation.run_ofFun, luaGetfield_plain hplain]
  rfl

/-- The object is its own value. -/
theorem not_chainEnds_self {s : EncState} {t : Nat} (hplain : s.lua.Plain)
    (helement : s.lua.rawgeti t 1 = Value.nil)
    (hself : (s.lua.tables t).get (luaString "value") = Value.table t) :
    ¬ ChainEnds env (s, Value.table t) := by
  have hget := @run_getfield_plain env s t hplain
  have haccesses : (objectAccesses env (Value.table t)).run s =
      (Except.ok ((s.lua.tables t).get (luaString "representation"),
        (s.lua.tables t).get (luaString "value_type"), Value.table t), s) := by
    unfold objectAccesses
    rw [Computation.run_bind_ok (hget "representation"),
      Computation.run_bind_ok (hget "value_type"),
      Computation.run_bind_ok (hget "value"), hself]
    rfl
  have hstep := ValueStep.object helement haccesses
  intro hacc
  generalize hx : (s, Value.table t) = x at hacc
  induction hacc with
  | intro x _ ih =>
      subst hx
      exact ih _ hstep rfl

end

/-!
## The turns of the loops

Every record makes the contents longer, and there is a limit to them.  So the
loops take finitely many turns if no Lua function takes the contents away.
-/

theorem acc_of_emitted {X : Type} {R : X -> X -> Prop} (w : X -> WriteState)
    (h : forall x y, R x y -> exists c : Piece, Emitted c (w x) (w y) ∧
      0 < c.bytes.length) (x : X) : Acc (fun y x => R x y) x := by
  have hwf := (measure (fun x => (w x).ob.capacity - (w x).ob.pos)).wf
  refine Subrelation.accessible ?_ (hwf.apply x)
  intro y x hR
  rcases h x y hR with ⟨c, hemitted, hpos⟩
  have hle := (w y).ob.pos_le_capacity
  have hgrown := hemitted.pos
  have hkept := hemitted.capacity
  change (w y).ob.capacity - (w y).ob.pos < (w x).ob.capacity - (w x).ob.pos
  omega

theorem piece_length_pos (c : FieldContent) : 0 < c.piece.bytes.length := by
  unfold FieldContent.piece Piece.key Piece.raw
  rw [Piece.bytes_append, List.length_append, List.length_singleton]
  omega

section

variable {env : EncodeEnv} (hquiet : env.plugin.Quiet)

include hquiet

theorem entryTurn_emitted {below : Value} {f : Nat}
    (x y : EncState × Value) (h : EntryTurn env lsbPbFields below f x y) :
    exists c : Piece, Emitted c x.1.w y.1.w ∧ 0 < c.bytes.length := by
  rcases h with ⟨n, t, hrun, hafter⟩
  unfold entryAfter at hafter
  unfold entryBody at hrun
  split at hafter
  · rename_i k v hnext
    cases hafter
    rw [hnext] at hrun
    dsimp only at hrun
    rcases record_of_run hrun with ⟨s2, s3, hstart, hvalue, hend⟩
    rcases Computation.run_bind_eq_ok hvalue with ⟨_, t2, hname, hvalue⟩
    rcases name_of_run hname with ⟨name, hstring, hlua⟩
    rcases value_of_run hquiet n hvalue with
      ⟨representation, values, _, hencode⟩
    rw [hlua, hstart] at hencode
    have hrecord := encodes_fieldRecord ((encodes_name hstring _).seq hencode)
    exact ⟨_, (hrecord.ok rfl hrun).2.2.1, piece_length_pos _⟩
  · cases hafter

theorem objectTurn_emitted {f : Nat} (x y : ObjectTurnState)
    (h : ObjectTurn env lsbPbFields f x y) :
    exists c : Piece, Emitted c x.1.w y.1.w ∧ 0 < c.bytes.length := by
  rcases h with ⟨n, t, hrun, hafter⟩
  have hy : y.1 = t := by
    unfold objectAfter at hafter
    dsimp only at hafter
    split at hafter
    · cases hafter
      rfl
    · cases hafter
  rw [hy]
  rw [← objectRecord_eq] at hrun
  rcases objectRecord_of_run hquiet hrun with
    ⟨w, L1, name, representation, values, hget, hstring, _, hencode⟩
  have hrecord := encodes_objectRecord hget hstring hencode
  exact ⟨_, (hrecord.ok rfl hrun).2.2.1, piece_length_pos _⟩

/-- If the Lua functions leave the output buffer alone then only the values
matter. -/
theorem entriesEnd_iff_of_quiet {below : Value} {f : Nat}
    (x : EncState × Value) : EntriesEnd env lsbPbFields below f x <->
      forall y, ReflTransGen (EntryTurn env lsbPbFields below f) x y ->
        forall z, EntryValue env lsbPbFields f y z -> ChainEnds env z :=
  and_iff_right (acc_of_emitted (fun x => x.1.w) (entryTurn_emitted hquiet) x)

theorem objectsEnd_iff_of_quiet {f : Nat} (x : ObjectTurnState) :
    ObjectsEnd env lsbPbFields f x <->
      forall y, ReflTransGen (ObjectTurn env lsbPbFields f) x y ->
        forall z, ObjectValue env lsbPbFields y z -> ChainEnds env z :=
  and_iff_right (acc_of_emitted (fun x => x.1.w) (objectTurn_emitted hquiet) x)

end

/-- A message table with a field whose value is an object that is its own
value. -/
def selfState : LuaState where
  tables a :=
    if a = 0 then
      LuaTable.empty.setString (ascii "Fields") (Value.table 1)
    else if a = 1 then
      LuaTable.empty.setString (ascii "x") (Value.table 2)
    else
      LuaTable.empty.setString (ascii "value") (Value.table 2)
  metatable _ := none

def selfStart : EncState :=
  EncState.start selfState (lsbInitOutputBuffer (fun _ => 0) 0) (fun _ => true)
    []

def selfConfig : HekaConfig := ⟨none, none, 1, false, pid_range_one⟩

/-- The state behind the headers. -/
def selfLua : LuaState := selfState.setString 0 (ascii "Pid") (integer 1)

theorem selfStart_gets : exists s1 a s2,
    GetsToFields sampleEnv selfConfig (Value.table 0) selfStart s1 ∧
      (recordStart lsbPbFields (encodeName sampleEnv (luaString "x"))).run s1 =
        (Except.ok a, s2) ∧
      s1.lua = selfLua ∧ s2.lua = selfLua :=
  ⟨_, _, _, ⟨_, _, rfl, rfl⟩, rfl, rfl, rfl⟩

end Heka
end LuaSandbox
