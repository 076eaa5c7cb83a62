import LuaSandbox.Heka.EncodeBounds
import LuaSandbox.Heka.EncodeEffect
import LuaSandbox.Heka.EncodeSound
import LuaSandbox.Lua.Traversal

/-!
# The entries of a hash of fields

The loop of the encoder over a table of fields in hash form converts the keys
that are numbers where they stand, and goes on from what they are converted to.
-/

namespace LuaSandbox
namespace Heka

open Foundation
open Lua
open Util
open Core

/-- The Lua functions of a plugin leave a table alone. -/
def LeavesTable (P : Plugin) (f : Nat) : Prop :=
  forall tm args L ob, (P.call tm args L ob).2.1.tables f = L.tables f

/-!
## The table of fields
-/

section

variable {P : Plugin} {f : Nat} (hleaves : LeavesTable P f)

include hleaves

theorem callMetamethod_leaves (tm : Value) (args : List Value) (L : LuaState)
    (ob : OutputBuffer) :
    (callMetamethod P tm args L ob).2.1.tables f = L.tables f := by
  have hcall := hleaves tm args L ob
  unfold callMetamethod
  split
  · rename_i hres
    rw [hres] at hcall
    exact hcall
  · rename_i hres
    rw [hres] at hcall
    exact hcall

omit hleaves in
theorem tables_ite {α : Type} {p : Prop} [Decidable p] {x y : Accessed α}
    {T : LuaTable} (hx : x.2.1.tables f = T) (hy : y.2.1.tables f = T) :
    (if p then x else y).2.1.tables f = T := by
  split
  · exact hx
  · exact hy

theorem gettable_leaves (key : Value) (L : LuaState) (ob : OutputBuffer)
    (n : Nat) :
    forall t, (gettable P key L ob n t).2.1.tables f = L.tables f := by
  induction n with
  | zero =>
      intro t
      rfl
  | succ n ih =>
      intro t
      unfold gettable
      apply tables_ite
      · rfl
      apply tables_ite
      · exact tables_ite rfl rfl
      · exact tables_ite (callMetamethod_leaves hleaves _ _ L ob) (ih _)

end

/-- A table is the same before and behind. -/
def tableEffect (f : Nat) : Effect EncState :=
  Effect.ofRelation (fun s t => t.lua.tables f = s.lua.tables f)
    (fun _ => rfl) (fun _ _ _ hst htu => htu.trans hst)

section

variable {f : Nat}

theorem tableEffect_of_lua {α : Type} {x : Enc α}
    (h : forall s, (x.run s).2.lua = s.lua) : HasEffect (tableEffect f) x where
  done := by
    intro s a t hrun
    have hlua := h s
    rw [hrun] at hlua
    exact congrArg (fun L => L.tables f) hlua
  failed := by
    intro s e t hrun
    have hlua := h s
    rw [hrun] at hlua
    exact congrArg (fun L => L.tables f) hlua

theorem run_write_lua {α : Type} (x : Writer α) (s : EncState) :
    ((write x).run s).2.lua = s.lua := by
  unfold write
  rw [Computation.run_ofFun]
  split <;> rfl

theorem run_attempt_write_lua (x : Writer Unit) (s : EncState) :
    ((attempt (write x)).run s).2.lua = s.lua := by
  have hwrite := run_write_lua x s
  unfold attempt
  rw [Computation.run_ofFun]
  split
  · rename_i hrun
    rw [hrun] at hwrite
    exact hwrite
  · rename_i hrun
    rw [hrun] at hwrite
    exact hwrite
  · rename_i hrun
    rw [hrun] at hwrite
    exact hwrite

theorem access_tableEffect {α : Type}
    {x : LuaState -> OutputBuffer -> Accessed α}
    (h : forall L ob, (x L ob).2.1.tables f = L.tables f) :
    HasEffect (tableEffect f) (access x) where
  done := by
    intro s a t hrun
    have hx := h s.lua s.w.ob
    unfold access at hrun
    rw [Computation.run_ofFun] at hrun
    dsimp only at hrun
    split at hrun
    · cases hrun
      exact hx
    · cases hrun
  failed := by
    intro s e t hrun
    have hx := h s.lua s.w.ob
    unfold access at hrun
    rw [Computation.run_ofFun] at hrun
    dsimp only at hrun
    split at hrun
    · cases hrun
    · cases hrun
      exact hx

theorem steps_tableEffect {env : EncodeEnv} (hleaves : LeavesTable env.plugin f) :
    StepsHaveEffect env (tableEffect f) where
  put _ _ _ := tableEffect_of_lua (run_write_lua _)
  update _ := tableEffect_of_lua (run_write_lua _)
  expand := tableEffect_of_lua (run_write_lua _)
  outputs s message e := by
    refine (tableEffect_of_lua (run_attempt_write_lua _)).bind (fun r => ?_)
    cases r with
    | none => exact HasEffect.pure ()
    | some _ => exact tableEffect_of_lua (fun _ => rfl)
  getfield t name := access_tableEffect (fun L ob =>
    gettable_leaves hleaves _ L ob maxTagLoop t)
  next _ _ := access_tableEffect (fun _ _ => rfl)
  failWith _ _ := tableEffect_of_lua (fun _ => rfl)
  depth := tableEffect_of_lua (fun _ => rfl)

end

/-!
## Visits
-/

theorem next_eq_ok {L : LuaState} {f : Nat} {k : Value}
    {e : Option (Value × Value)} (h : L.next f k = Except.ok e) :
    (L.tables f).next k = some e := by
  unfold LuaState.next at h
  split at h
  · rename_i hnext
    cases h
    exact hnext
  · cases h

/-- A field record says what an entry says. -/
def EntryRead (env : EncodeEnv) (below : Value) (e : Value × Value)
    (c : FieldContent) : Prop :=
  e.1.tostring env.fmt = some c.name ∧
    exists L L', ValueReads env L below none (-1) e.2 c.representation
      c.values L'

/-- The contents grow by one record for each entry. -/
def RecordsOf (env : EncodeEnv) (below : Value)
    (visited : List (Value × Value)) (w w1 : WriteState) : Prop :=
  exists fields, List.Forall₂ (EntryRead env below) visited fields ∧
    Emitted (Piece.concat (fields.map FieldContent.piece)) w w1

section

variable {env : EncodeEnv} {below : Value} {f : Nat}
  (hleaves : LeavesTable env.plugin f)

include hleaves

/-- The entries that the loop visits are those that it gets to in the table, and
each one gives a record. -/
theorem visited_of_run (n : Nat) : forall {k : Value} {s s1 : EncState},
    (encodeFieldEntries env lsbPbFields below f n k).run s =
      (Except.ok (), s1) ->
    exists visited,
      (s.lua.tables f).traverse (convertedKey env) n k = some visited ∧
        (env.plugin.Quiet -> exists fields,
          List.Forall₂ (EntryRead env below) visited fields ∧
            Encodes (encodeFieldEntries env lsbPbFields below f n k) s.lua
              (Piece.concat (fields.map FieldContent.piece)) () s1.lua) := by
  induction n with
  | zero =>
      intro k s s1 h
      cases h
  | succ n ih =>
      intro k s s1 h
      rcases entry_of_run h with ⟨hnext, hlua⟩ |
        ⟨k', v, name, s2, s3, t, hnext, hstring, hstart, hvalue, hend, hrest⟩
      · refine ⟨[], ?_, fun _ => ⟨[], List.Forall₂.nil, ?_⟩⟩
        · unfold LuaTable.traverse
          rw [next_eq_ok hnext]
        · rw [hlua]
          exact encodes_noEntry hnext
      · have hsame : t.lua.tables f = s.lua.tables f := by
          rw [hend, ← hstart]
          exact ((steps_tableEffect hleaves).encodeFieldValue n below 1 none
            (-1) v).done hvalue
        rcases ih hrest with ⟨visited, htraverse, hfields⟩
        refine ⟨(k', v) :: visited, ?_, fun hquiet => ?_⟩
        · rw [hsame] at htraverse
          unfold LuaTable.traverse
          rw [next_eq_ok hnext]
          dsimp only
          rw [htraverse]
          rfl
        · rcases value_of_run hquiet n hvalue with
            ⟨representation, values, hread, hencode⟩
          rcases hfields hquiet with ⟨fields, hfields, hencodes⟩
          rw [hstart, ← hend] at hread hencode
          exact ⟨_, List.Forall₂.cons ⟨hstring, _, _, hread⟩ hfields,
            encodes_entry hnext hstring hencode hencodes⟩

/-- When the encoder takes a table of fields in hash form without an error, it
has visited some entries and written a record for each.  These are all entries
of the table, each of them once, if and only if for every key that is a number
the same entry follows the number and its text. -/
theorem encodeFields_once_iff {n : Nat} {t : Value} {s s1 : EncState}
    (hfields : exists L ob, luaGetfield env.plugin t (ascii "Fields") s.lua
      s.w.ob = (Except.ok (Value.table f), L, ob))
    (hhash : (s.lua.rawgeti f 1).type ≠ LuaType.table)
    (hrun : (encodeFields env n lsbPbFields "Fields" below t).run s =
      (Except.ok (), s1)) :
    exists visited,
      (s.lua.tables f).traverse (convertedKey env) n Value.nil =
          some visited ∧
        (env.plugin.Quiet -> RecordsOf env below visited s.w s1.w) ∧
        (visited = live (s.lua.tables f).entries <->
          (s.lua.tables f).Undisturbed (convertedKey env)) := by
  rcases hfields with ⟨L, ob, hget⟩
  have hsame : L.tables f = s.lua.tables f := by
    have hkept := gettable_leaves hleaves (Value.string (ascii "Fields")) s.lua
      s.w.ob maxTagLoop t
    unfold luaGetfield at hget
    rw [hget] at hkept
    exact hkept
  have hgetfield : (getfield env t "Fields").run s =
      (Except.ok (Value.table f),
        { s with lua := L, w := { s.w with ob := ob } }) := by
    unfold getfield access
    rw [Computation.run_ofFun]
    dsimp only
    rw [hget]
  have hhash' : (L.rawgeti f 1).type ≠ LuaType.table := by
    unfold LuaState.rawgeti
    rw [hsame]
    exact hhash
  have hentries : (encodeFieldEntries env lsbPbFields below f n Value.nil).run
      { s with lua := L, w := { s.w with ob := ob } } =
        (Except.ok (), s1) := by
    unfold encodeFields at hrun
    rw [Computation.run_bind_ok hgetfield] at hrun
    change (if (L.rawgeti f 1).type = LuaType.table then _ else
      encodeFieldEntries env lsbPbFields below f n Value.nil : Enc Unit).run _ =
        _ at hrun
    rw [if_neg hhash'] at hrun
    exact hrun
  rcases visited_of_run hleaves n hentries with ⟨visited, htraverse, hrecords⟩
  change (L.tables f).traverse _ n Value.nil = _ at htraverse
  rw [hsame] at htraverse
  refine ⟨visited, htraverse, fun hquiet => ?_,
    LuaTable.traverse_eq_live_iff htraverse⟩
  rcases hrecords hquiet with ⟨fields, hread, hencodes⟩
  rcases luaGetfield_quiet hquiet t (ascii "Fields") s.lua with ⟨r, L', hsilent⟩
  have hob : ob = s.w.ob := by
    have heq := hget.symm.trans (hsilent s.w.ob)
    cases heq
    rfl
  subst hob
  exact ⟨fields, hread, (hencodes.ok rfl hentries).2.2.1⟩

end

/-- The format writes the number 1. -/
def oneEnv : EncodeEnv :=
  { sampleEnv with fmt := ⟨fun _ => ascii "1", fun _ => none⟩ }

theorem leaves_noFunctions (f : Nat) : LeavesTable noFunctions f :=
  fun _ _ _ _ => rfl

/-- The fields of a message table at the address 1. -/
def fieldsState (fields : LuaTable) : LuaState where
  tables a :=
    if a = 0 then
      LuaTable.empty.setString (ascii "Fields") (Value.table 1)
    else fields
  metatable _ := none

def fieldsStart (fields : LuaTable) : EncState :=
  EncState.start (fieldsState fields)
    (lsbInitOutputBuffer (fun _ => 0) 0) (fun _ => true) []

def textFields : LuaTable :=
  LuaTable.empty.setString (ascii "1") (Value.string (ascii "y"))

/-- The fields 1 and "1", in the order in which they are traversed. -/
def numberFields : LuaTable where
  entries := [(integer 1, Value.string (ascii "x")),
    (Value.string (ascii "1"), Value.string (ascii "y"))]
  length := 1
  keys_nodup := by decide
  nil_not_key := by decide
  border := by
    unfold IsBorder
    decide +kernel
  length_lt := by decide

/-- How the encoder takes the fields. -/
def encodeFieldsOf (fields : LuaTable) : Except Stop Unit × EncState :=
  (encodeFields oneEnv 3 lsbPbFields "Fields" Value.nil (Value.table 0)).run
    (fieldsStart fields)

theorem run_encodeFieldsOf {fields : LuaTable}
    (h : (encodeFieldsOf fields).1.isOk = true) :
    (encodeFields oneEnv 3 lsbPbFields "Fields" Value.nil
        (Value.table 0)).run (fieldsStart fields) =
      (Except.ok (), (encodeFieldsOf fields).2) := by
  change encodeFieldsOf fields = _
  generalize encodeFieldsOf fields = r at h
  rcases r with ⟨_ | _, s⟩
  · cases h
  · rfl

theorem encodeFields_once_text :
    textFields.traverse (convertedKey oneEnv) 3 Value.nil =
      some (live textFields.entries) := by
  rcases @encodeFields_once_iff oneEnv Value.nil 1 (leaves_noFunctions 1) 3
    (Value.table 0) (fieldsStart textFields) _ ⟨_, _, rfl⟩ (by decide +kernel)
    (run_encodeFieldsOf (by decide +kernel)) with ⟨visited, hvisited, _, hiff⟩
  have hlive : visited = live textFields.entries :=
    hiff.mpr (by decide +kernel)
  rw [← hlive]
  exact hvisited

/-- With a number and its text as keys the text is passed over: one record is
written, with the value "x". -/
theorem encodeFields_skips :
    (encodeFieldsOf numberFields).1.isOk = true ∧
      (encodeFieldsOf numberFields).2.w.ob.contents =
        [0x52, 6, 0x0a, 1, 0x31, 0x22, 1, 0x78] ∧
      (live numberFields.entries).length = 2 ∧
      ¬ exists visited,
        numberFields.traverse (convertedKey oneEnv) 3 Value.nil =
            some visited ∧
          visited = live numberFields.entries := by
  refine ⟨by decide +kernel, by decide +kernel, by decide +kernel, ?_⟩
  rintro ⟨visited, hvisited, hlive⟩
  have hundisturbed := (LuaTable.traverse_eq_live_iff hvisited).mp hlive
  exact absurd hundisturbed (by decide +kernel)

end Heka
end LuaSandbox
