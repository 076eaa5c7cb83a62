import LuaSandbox.Heka.BareMessage
import LuaSandbox.Lua.Traversal

/-!
# Fields of plain tables

What the fields of a message table say, value by value, if no table of them has
a metatable.
-/

namespace LuaSandbox
namespace Heka

open Foundation
open Lua
open Util
open Core

/-- A field with its Lua values; they have one type. -/
structure PlainField where
  name : List UInt8
  representation : Option (List UInt8)
  valueType : Nat
  values : List Value
  deriving DecidableEq

def PlainField.content (f : PlainField) : FieldContent :=
  ⟨f.name, f.representation, fieldValues f.valueType f.values⟩

/-- A value of a Lua type that a field of the value type holds. -/
def Admitted (n : Nat) (v : Value) : Prop :=
  exists valueType, fieldType valueType v.type = some n

section

variable (env : EncodeEnv) (L : LuaState)

/-- A value with a representation and a value type, -1 if it has none: a string,
a number or a boolean, an array of values of one of these types, or an object
with a value, a representation and a value type of its own. -/
inductive ValueSays : Option (List UInt8) -> Int -> Value ->
    Option (List UInt8) -> Nat -> List Value -> Prop where
  | scalar {representation valueType v n} :
      fieldType valueType v.type = some n ->
      ValueSays representation valueType v representation n [v]
  | array {representation valueType a e rest n} :
      ArrayOf L a (e :: rest) ->
      fieldType valueType e.type = some n ->
      (forall v, v ∈ rest -> v.type = e.type) ->
      ValueSays representation valueType (Value.table a) representation n
        (e :: rest)
  | object {representation valueType t representation' n vs} :
      L.Bare t ->
      L.rawgeti t 1 = Value.nil ->
      ValueSays (objectRepresentation env (fieldOf L t "representation"))
        (objectValueType env (fieldOf L t "value_type"))
        (fieldOf L t "value") representation' n vs ->
      ValueSays representation valueType (Value.table t) representation' n vs

/-- An object with a name. -/
def ObjectSays (t : Nat) (f : PlainField) : Prop :=
  L.Bare t ∧ (fieldOf L t "name").tostring env.fmt = some f.name ∧
    ValueSays env L (objectRepresentation env (fieldOf L t "representation"))
      (objectValueType env (fieldOf L t "value_type"))
      (fieldOf L t "value") f.representation f.valueType f.values

/-- The objects of an array from the index `i` on. -/
inductive ObjectsSay (a : Nat) : Int -> List PlainField -> Prop where
  | done {i} : L.rawgeti a i = Value.nil -> ObjectsSay a i []
  | object {i t f fields} :
      L.rawgeti a i = Value.table t ->
      ObjectSays env L t f ->
      ObjectsSay a (i + 1) fields ->
      ObjectsSay a i (f :: fields)

/-- An entry of a table of fields. -/
def EntrySays (e : Value × Value) (f : PlainField) : Prop :=
  e.1 = Value.string f.name ∧
    ValueSays env L none (-1) e.2 f.representation f.valueType f.values

/-- The fields of a message: none, an array of objects with their names, or a
table with the names as its keys. -/
inductive FieldsSay (a : Nat) : List PlainField -> Prop where
  | none :
      (fieldOf L a "Fields").type ≠ LuaType.table ->
      FieldsSay a []
  | objects {t fields} :
      fieldOf L a "Fields" = Value.table t ->
      (L.rawgeti t 1).type = LuaType.table ->
      ObjectsSay env L t 1 fields ->
      FieldsSay a fields
  | entries {t fields} :
      fieldOf L a "Fields" = Value.table t ->
      (L.rawgeti t 1).type ≠ LuaType.table ->
      List.Forall₂ (EntrySays env L) (live (L.tables t).entries) fields ->
      FieldsSay a fields

end

/-!
## Values
-/

section

variable {env : EncodeEnv} {L : LuaState} {a n : Nat} {valueType : Int}
  {representation representation' : Option (List UInt8)} {v : Value}
  {vs : List Value} {fields : List PlainField}

theorem ValueSays.reads
    (h : ValueSays env L representation valueType v representation' n vs) :
    forall below, ValueReads env L below representation valueType v
      representation' (fieldValues n vs) L := by
  induction h with
  | scalar htype =>
      intro below
      exact ValueReads.scalar htype
  | array harray htype hrest =>
      intro below
      exact ValueReads.array harray htype hrest
  | object hbare hnil _ ih =>
      intro below
      exact ValueReads.object hnil (getsField_bare env hbare _)
        (getsField_bare env hbare _) (getsField_bare env hbare _) (ih _)

/-- All values have the type that is said. -/
theorem ValueSays.admitted
    (h : ValueSays env L representation valueType v representation' n vs) :
    forall w, w ∈ vs -> Admitted n w := by
  induction h with
  | scalar htype =>
      intro w hw
      cases List.mem_singleton.mp hw
      exact ⟨_, htype⟩
  | array harray htype hrest =>
      intro w hw
      rcases List.mem_cons.mp hw with rfl | hw
      · exact ⟨_, htype⟩
      · rw [← hrest w hw] at htype
        exact ⟨_, htype⟩
  | object _ _ _ ih => exact ih

/-!
## Fields
-/

theorem ObjectSays.reads {t : Nat} {f : PlainField}
    (h : ObjectSays env L t f) :
    ObjectReads env L (Value.table t) f.representation f.content.values L :=
  ⟨_, L, _, L, _, L, getsField_bare env h.1 _, getsField_bare env h.1 _,
    getsField_bare env h.1 _, h.2.2.reads _⟩

theorem ObjectsSay.reads {i : Int} {f : PlainField}
    (h : ObjectsSay env L a i (f :: fields)) :
    ObjectsRead env a L i (L.rawgeti a i)
      ((f :: fields).map PlainField.content) L := by
  induction fields generalizing i f with
  | nil =>
      cases h with
      | object hget hobject hrest =>
          cases hrest with
          | done hnil =>
              rw [hget]
              exact ObjectsRead.last (getsField_bare env hobject.1 _)
                hobject.2.1 hobject.reads hnil
  | cons g fields ih =>
      cases h with
      | object hget hobject hrest =>
          have hnext : L.rawgeti a (i + 1) ≠ Value.nil := by
            cases hrest with
            | object hget' _ _ =>
                rw [hget']
                exact nofun
          rw [hget]
          exact ObjectsRead.more (getsField_bare env hobject.1 _)
            hobject.2.1 hobject.reads hnext (ih hrest)

/-- The entries behind a key are read one by one. -/
theorem entriesRead_of_said (below : Value) {key : Value}
    {rest : List (Value × Value)}
    (hbehind : (L.tables a).IsBehind key rest)
    (h : List.Forall₂ (EntrySays env L) (live rest) fields) :
    EntriesRead env below a L key (fields.map PlainField.content) L := by
  have hnext : L.next a key = Except.ok (LuaTable.firstEntry rest) := by
    unfold LuaState.next
    rw [hbehind.1]
  rw [LuaTable.firstEntry_eq] at hnext
  induction fields generalizing key rest with
  | nil =>
      rw [List.forall₂_nil_right_iff] at h
      rw [h] at hnext
      exact EntriesRead.done hnext
  | cons f fields ih =>
      rcases List.forall₂_cons_right_iff.mp h with
        ⟨⟨k, w⟩, others, ⟨rfl, hvalue⟩, hothers, hlive⟩
      have hfirst : LuaTable.firstEntry rest =
          some (Value.string f.name, w) := by
        rw [LuaTable.firstEntry_eq, hlive, List.head?_cons]
      rcases hbehind.step hfirst with ⟨rest', hbehind', hlive'⟩
      have hothers' : live rest' = others := by
        rw [hlive] at hlive'
        exact (List.cons.inj hlive').2.symm
      have hnext' : L.next a (Value.string f.name) =
          Except.ok (live rest').head? := by
        unfold LuaState.next
        rw [hbehind'.1, LuaTable.firstEntry_eq]
      rw [hlive, List.head?_cons] at hnext
      subst hothers'
      exact EntriesRead.entry hnext rfl (hvalue.reads below)
        (ih hbehind' hothers hnext')

/-- The table is read as the fields that it says. -/
theorem FieldsSay.reads (h : FieldsSay env L a fields) (hbare : L.Bare a)
    (below : Value) :
    FieldsRead env below (Value.table a) L (fields.map PlainField.content)
      L := by
  have hget := getsField_bare env hbare "Fields"
  cases h with
  | none htype => exact FieldsRead.none hget htype
  | objects htable htype hobjects =>
      rw [htable] at hget
      cases hobjects with
      | done hnil =>
          rw [hnil] at htype
          cases htype
      | object hfirst hobject hrest =>
          exact FieldsRead.objects hget htype
            (ObjectsSay.object hfirst hobject hrest).reads
  | entries htable htype hentries =>
      rw [htable] at hget
      exact FieldsRead.entries hget htype
        (entriesRead_of_said below (LuaTable.isBehind_nil _) hentries)

theorem ObjectsSay.admitted {i : Int} (h : ObjectsSay env L a i fields) :
    forall f, f ∈ fields -> forall w, w ∈ f.values ->
      Admitted f.valueType w := by
  induction h with
  | done _ => exact fun f hf => absurd hf List.not_mem_nil
  | object _ hobject _ ih =>
      intro f hf
      rcases List.mem_cons.mp hf with rfl | hf
      · exact hobject.2.2.admitted
      · exact ih f hf

theorem entries_admitted {entries : List (Value × Value)}
    (h : List.Forall₂ (EntrySays env L) entries fields) :
    forall f, f ∈ fields -> forall w, w ∈ f.values ->
      Admitted f.valueType w := by
  induction h with
  | nil => exact fun f hf => absurd hf List.not_mem_nil
  | cons hentry _ ih =>
      intro f hf
      rcases List.mem_cons.mp hf with rfl | hf
      · exact hentry.2.admitted
      · exact ih f hf

theorem FieldsSay.admitted (h : FieldsSay env L a fields) :
    forall f, f ∈ fields -> forall w, w ∈ f.values ->
      Admitted f.valueType w := by
  cases h with
  | none => exact fun f hf => absurd hf List.not_mem_nil
  | objects _ _ hobjects => exact hobjects.admitted
  | entries _ _ hentries => exact entries_admitted hentries

end

end Heka
end LuaSandbox
