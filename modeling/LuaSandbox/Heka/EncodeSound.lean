import LuaSandbox.Heka.MessageEncodes

/-!
# Encoded tables are messages

A table that is encoded without an error was read as a message, if the Lua
functions of the plugin leave the output buffer alone.
-/

namespace LuaSandbox
namespace Heka

open Foundation
open Lua
open Util
open Core

/-!
## Accesses and writes
-/

theorem reads_of_run {α : Type} {f : LuaState -> OutputBuffer -> Accessed α}
    {s s1 : EncState} {a : α} (hf : Undisturbed (f s.lua))
    (h : (access f).run s = (Except.ok a, s1)) : Reads f s.lua a s1.lua := by
  rcases hf with ⟨r, L', hf⟩
  unfold access at h
  rw [Computation.run_ofFun, hf] at h
  cases r with
  | error v => cases h
  | ok b =>
      cases h
      exact hf

theorem write_lua {α : Type} {x : Writer α} {s s1 : EncState}
    {r : Except Stop α} (h : (write x).run s = (r, s1)) : s1.lua = s.lua := by
  unfold write at h
  rw [Computation.run_ofFun] at h
  split at h
  · cases h
    rfl
  · cases h
    rfl

theorem not_failWith {α : Type} {message : List UInt8} {e : LsbErr}
    {s s1 : EncState} {a : α} :
    (failWith message e : Enc α).run s ≠ (Except.ok a, s1) :=
  nofun

section

variable {env : EncodeEnv} (hquiet : env.plugin.Quiet) {s s1 : EncState}
  {t v : Value} {name : String}

include hquiet

theorem getsField_of_run
    (h : (getfield env t name).run s = (Except.ok v, s1)) :
    GetsField env s.lua t name v s1.lua :=
  reads_of_run (luaGetfield_quiet hquiet t (ascii name) s.lua) h

theorem setsField_of_run
    (h : (setfield env t name v).run s = (Except.ok (), s1)) :
    SetsField env s.lua t name v s1.lua :=
  reads_of_run (luaSetfield_quiet hquiet t (ascii name) v s.lua) h

end

/-!
## Values
-/

section

variable {env : EncodeEnv} {s s1 : EncState} {below v : Value} {first : Int}
  {representation : Option (List UInt8)} {valueType : Int} {n : Nat}

/-- The types of the elements of an array. -/
def ScalarType (t : LuaType) : Prop :=
  t = LuaType.string ∨ t = LuaType.number ∨ t = LuaType.boolean

/-- A value that is encoded has a type that fits the value type. -/
theorem fieldType_of_run (hv : ScalarType v.type)
    (h : (encodeFieldValue env n below first representation valueType v).run
      s = (Except.ok (), s1)) :
    (exists m, n = m + 1) ∧ exists k, fieldType valueType v.type = some k := by
  cases n with
  | zero => cases h
  | succ m =>
      refine ⟨⟨m, rfl⟩, ?_⟩
      cases v with
      | string x =>
          change (encodeStringValue first representation valueType x).run s = _
            at h
          unfold encodeStringValue at h
          split at h
          · cases h
          rename_i hvalid
          by_cases hstring : valueType = -1 ∨ valueType = 0
          · exact ⟨0, fieldType_string.mpr (Or.inl ⟨hstring, rfl⟩)⟩
          · exact ⟨1, fieldType_string.mpr (Or.inr ⟨by omega, rfl⟩)⟩
      | number d =>
          change (encodeNumberValue first representation valueType d).run s = _
            at h
          unfold encodeNumberValue at h
          split at h
          · cases h
          rename_i hvalid
          by_cases hdouble : valueType = -1 ∨ valueType = 3
          · exact ⟨3, fieldType_number.mpr (Or.inl ⟨hdouble, rfl⟩)⟩
          · exact ⟨2, fieldType_number.mpr (Or.inr ⟨by omega, rfl⟩)⟩
      | boolean b =>
          change (encodeBooleanValue first representation valueType b).run s = _
            at h
          unfold encodeBooleanValue lsbPbBool at h
          split at h
          · cases h
          exact ⟨4, fieldType_boolean.mpr ⟨by omega, rfl⟩⟩
      | nil | lightuserdata | table | function | cfunction | userdata
      | thread =>
          rcases hv with hv | hv | hv <;> cases hv

/-- The elements that are encoded have the type of the first one. -/
theorem types_of_run {L : LuaState} {value : Int -> Value -> Enc Unit}
    {a : Nat} {t : LuaType}
    (hvalue : forall v, v.type = t -> exists c, Encodes (value 0 v) L c () L)
    (n : Nat) :
    forall {idx : Int} {s s1 : EncState}, s.lua = L ->
      (encodeElements value a t n idx).run s = (Except.ok (), s1) ->
      forall i, i < n -> (L.rawgeti a (idx + i)).type = t := by
  induction n with
  | zero =>
      intro idx s s1 _ _ i hi
      omega
  | succ n ih =>
      intro idx s s1 hL h i hi
      unfold encodeElements at h
      have hget : getLua.run s = (Except.ok L, s) := by
        rw [← hL]
        rfl
      rw [Computation.run_bind_ok hget] at h
      dsimp only at h
      split at h
      · cases h
      rename_i htype
      have htype' := not_not.mp htype
      rcases Computation.run_bind_eq_ok h with ⟨_, s2, hfirst, hrest⟩
      rcases hvalue _ htype' with ⟨c, hencode⟩
      have hL2 := (hencode.ok hL hfirst).2.1
      cases i with
      | zero =>
          rw [Int.natCast_zero, Int.add_zero]
          exact htype'
      | succ i =>
          have hnext := ih hL2 hrest i (Nat.lt_of_succ_lt_succ hi)
          have hindex : idx + (i + 1 : Nat) = idx + 1 + i := by omega
          rw [hindex]
          exact hnext

/-- The elements of a table behind the first one. -/
def otherElements (L : LuaState) (a : Nat) : List Value :=
  (List.range (L.objlen a - 1)).map (fun i => L.rawgeti a (2 + (i : Nat)))

theorem arrayOf_elements {L : LuaState} {a : Nat}
    (hfirst : L.rawgeti a 1 ≠ Value.nil) :
    ArrayOf L a (L.rawgeti a 1 :: otherElements L a) := by
  have hpos : L.objlen a ≠ 0 := by
    intro hzero
    have hborder := (L.tables a).border.2
    change (L.tables a).length = 0 at hzero
    rw [hzero] at hborder
    exact hfirst hborder
  constructor
  · unfold otherElements
    rw [List.length_cons, List.length_map, List.length_range]
    omega
  · intro i hi
    cases i with
    | zero => rfl
    | succ i =>
        have hindex : ((i + 1 : Nat) : Int) + 1 = 2 + i := by omega
        rw [List.getElem_cons_succ, hindex]
        unfold otherElements
        rw [List.getElem_map, List.getElem_range]

theorem array_of_run {L : LuaState} {a : Nat} (hL : s.lua = L)
    (hscalar : ScalarType (L.rawgeti a 1).type)
    (h : (encodeFieldArray (fun first => encodeFieldValue env n below first
        representation valueType) a valueType (L.rawgeti a 1)).run s =
      (Except.ok (), s1)) :
    (exists m, n = m + 1) ∧
      (exists k, fieldType valueType (L.rawgeti a 1).type = some k) ∧
      ArrayOf L a (L.rawgeti a 1 :: otherElements L a) ∧
      forall v, v ∈ otherElements L a -> v.type = (L.rawgeti a 1).type := by
  have hne : L.rawgeti a 1 ≠ Value.nil := by
    intro hnil
    rw [hnil] at hscalar
    rcases hscalar with hv | hv | hv <;> cases hv
  have harray := arrayOf_elements hne
  unfold encodeFieldArray at h
  have hget : getLua.run s = (Except.ok L, s) := by
    rw [← hL]
    rfl
  rw [Computation.run_bind_ok hget] at h
  dsimp only at h
  rcases Computation.run_bind_eq_ok h with ⟨_, s2, hfirst, h⟩
  rw [Computation.run_bind_ok (run_getPos s2)] at h
  rcases Computation.run_bind_eq_ok h with ⟨_, s3, helements, _⟩
  rcases fieldType_of_run hscalar hfirst with ⟨⟨m, rfl⟩, k, hk⟩
  refine ⟨⟨m, rfl⟩, ⟨k, hk⟩, harray, ?_⟩
  have hencode (first : Int) (v : Value)
      (hv : v.type = (L.rawgeti a 1).type) :=
    encodes_scalar L first representation env below (hv ▸ hk) m
  have hL2 := ((hencode _ _ rfl).ok hL hfirst).2.1
  have htypes := types_of_run (fun v hv => ⟨_, hencode 0 v hv⟩) _ hL2
    helements
  intro v hmem
  rcases List.mem_map.mp hmem with ⟨i, hi, rfl⟩
  apply htypes i
  rw [toInt_objlen]
  have hlt := List.mem_range.mp hi
  omega

end

theorem type_eq_nil {v : Value} (h : v.type = LuaType.nil) :
    v = Value.nil := by
  cases v <;> cases h
  rfl

theorem type_eq_table {v : Value} (h : v.type = LuaType.table) :
    exists t, v = Value.table t := by
  cases v <;> cases h
  exact ⟨_, rfl⟩

theorem type_eq_userdata {v : Value} (h : v.type = LuaType.userdata) :
    exists u, v = Value.userdata u := by
  cases v <;> cases h
  exact ⟨_, rfl⟩

/-- A run that ends, of an encoder that appends a piece. -/
theorem Encodes.lua_of_run {α : Type} {x : Enc α} {L L' : LuaState}
    {c : Piece} {a b : α} {s s1 : EncState} (h : Encodes x L c a L')
    (hL : s.lua = L) (hrun : x.run s = (Except.ok b, s1)) : L' = s1.lua :=
  (h.ok hL hrun).2.1.symm

section

variable {env : EncodeEnv} (hquiet : env.plugin.Quiet) {s s1 : EncState}

include hquiet

theorem object_of_run
    {value : Option (List UInt8) -> Int -> Value -> Enc Unit} {obj : Value}
    (h : (encodeFieldObject env value obj).run s = (Except.ok (), s1)) :
    exists r L1 w L2 v s2,
      GetsField env s.lua obj "representation" r L1 ∧
        GetsField env L1 obj "value_type" w L2 ∧
        GetsField env L2 obj "value" v s2.lua ∧
        (value (objectRepresentation env r) (objectValueType env w) v).run s2 =
          (Except.ok (), s1) := by
  unfold encodeFieldObject at h
  rcases Computation.run_bind_eq_ok h with ⟨r, t1, hr, h⟩
  rcases Computation.run_bind_eq_ok h with ⟨w, t2, hw, h⟩
  rcases Computation.run_bind_eq_ok h with ⟨v, t3, hv, h⟩
  exact ⟨r, t1.lua, w, t2.lua, v, t3, getsField_of_run hquiet hr,
    getsField_of_run hquiet hw, getsField_of_run hquiet hv, h⟩

omit hquiet in
/-- The output function of a userdata value that is encoded gives a text. -/
theorem output_of_run {representation : Option (List UInt8)} {u : Value}
    (h : (encodeUserdata env 1 representation u).run s =
      (Except.ok (), s1)) :
    exists text, env.plugin.output s.lua u = some (Except.ok text) := by
  unfold encodeUserdata at h
  have hget : getLua.run s = (Except.ok s.lua, s) := rfl
  rw [Computation.run_bind_ok hget] at h
  split at h
  · cases h
  · rename_i text houtput
    rcases Computation.run_bind_eq_ok h with ⟨_, t1, _, h⟩
    rcases Computation.run_bind_eq_ok h with ⟨_, t2, _, h⟩
    unfold lengthPrefixed at h
    rw [Computation.run_bind_ok (run_getPos t2)] at h
    rcases Computation.run_bind_eq_ok h with ⟨_, t3, _, h⟩
    rcases Computation.run_bind_eq_ok h with ⟨_, t4, htext, _⟩
    rcases text with result | text
    · exact absurd htext not_failWith
    · exact ⟨text, houtput⟩

/-- A value is read as the values of a field, and the encoder with fuel `n`
appends them. -/
def ValueSound (env : EncodeEnv) (n : Nat) (below : Value)
    (representation : Option (List UInt8)) (valueType : Int) (v : Value)
    (L L' : LuaState) : Prop :=
  exists representation' values,
    ValueReads env L below representation valueType v representation' values
      L' ∧
    Encodes (encodeFieldValue env n below 1 representation valueType v) L
      (valuesPiece representation' values) () L'

omit hquiet in
theorem scalar_sound {n : Nat} {below v : Value}
    {representation : Option (List UInt8)} {valueType : Int}
    (htype : ScalarType v.type)
    (h : (encodeFieldValue env n below 1 representation valueType v).run s =
      (Except.ok (), s1)) :
    ValueSound env n below representation valueType v s.lua s1.lua := by
  rcases fieldType_of_run htype h with ⟨⟨m, rfl⟩, k, hk⟩
  have hencode : Encodes (encodeFieldValue env (m + 1) below 1 representation
      valueType v) s.lua _ () s.lua :=
    encodes_single hk m
  rw [← hencode.lua_of_run rfl h]
  exact ⟨_, _, ValueReads.scalar hk, hencode⟩

omit hquiet in
theorem array_sound {n t : Nat} {below : Value}
    {representation : Option (List UInt8)} {valueType : Int}
    (htype : ScalarType (s.lua.rawgeti t 1).type)
    (hrun : (encodeFieldArray (fun first => encodeFieldValue env n
        (Value.table t) first representation valueType) t valueType
        (s.lua.rawgeti t 1)).run s = (Except.ok (), s1)) :
    ValueSound env (n + 1) below representation valueType (Value.table t)
      s.lua s1.lua := by
  rcases array_of_run rfl htype hrun with ⟨⟨m, rfl⟩, ⟨k, hk⟩, hof, htypes⟩
  have hencode : Encodes (encodeFieldValue env (m + 2) below 1 representation
      valueType (Value.table t)) s.lua _ () s.lua :=
    encodes_arrayValue hof hk htypes m
  have harray := encodes_array env representation hof htypes hk
    (Value.table t) m
  rw [← harray.lua_of_run rfl hrun]
  exact ⟨_, _, ValueReads.array hof hk htypes, hencode⟩

theorem object_sound {n t : Nat} {below : Value}
    {representation : Option (List UInt8)} {valueType : Int}
    (hnil : s.lua.rawgeti t 1 = Value.nil)
    (ih : forall {representation valueType v} {s s1 : EncState},
      (encodeFieldValue env n (Value.table t) 1 representation valueType
        v).run s = (Except.ok (), s1) ->
      ValueSound env n (Value.table t) representation valueType v s.lua
        s1.lua)
    (h : (encodeFieldObject env (encodeFieldValue env n (Value.table t) 1)
      (Value.table t)).run s = (Except.ok (), s1)) :
    ValueSound env (n + 1) below representation valueType (Value.table t)
      s.lua s1.lua := by
  rcases object_of_run hquiet h with ⟨r, L1, w, L2, v, s2, hr, hw, hv, hvalue⟩
  rcases ih hvalue with ⟨representation', values, hread, hencode⟩
  refine ⟨representation', values, ValueReads.object hnil hr hw hv hread, ?_⟩
  unfold encodeFieldValue
  apply (encodes_getLua s.lua).bind_empty
  rw [hnil]
  exact encodes_object hr hw hv hencode

omit hquiet in
theorem userdata_sound {representation : Option (List UInt8)} {u : Nat}
    (h : (encodeUserdata env 1 representation (Value.userdata u)).run s =
      (Except.ok (), s1)) :
    s1.lua = s.lua ∧ exists text,
      env.plugin.output s.lua (Value.userdata u) = some (Except.ok text) := by
  rcases output_of_run h with ⟨text, htext⟩
  exact ⟨((encodes_userdata htext).lua_of_run rfl h).symm, text, htext⟩

theorem lightuserdata_sound {n p : Nat} {below : Value}
    {representation : Option (List UInt8)} {valueType : Int}
    (h : (encodeFieldValue env (n + 1) below 1 representation valueType
      (Value.lightuserdata p)).run s = (Except.ok (), s1)) :
    ValueSound env (n + 1) below representation valueType
      (Value.lightuserdata p) s.lua s1.lua := by
  unfold encodeFieldValue at h
  rcases Computation.run_bind_eq_ok h with ⟨u, t, hget, h⟩
  have hgets := getsField_of_run hquiet hget
  split at h
  · exact absurd h not_failWith
  rename_i htype
  rcases type_eq_userdata (not_not.mp htype) with ⟨u, rfl⟩
  rcases userdata_sound h with ⟨hlua, text, htext⟩
  rw [hlua]
  refine ⟨_, _, ValueReads.lightuserdata hgets htext, ?_⟩
  unfold encodeFieldValue
  apply (encodes_getfield hgets).bind_empty
  exact encodes_userdata htext

/-- A value that is encoded was read as the values of a field. -/
theorem value_of_run (n : Nat) :
    forall {below : Value} {representation : Option (List UInt8)}
      {valueType : Int} {v : Value} {s s1 : EncState},
      (encodeFieldValue env n below 1 representation valueType v).run s =
        (Except.ok (), s1) ->
      ValueSound env n below representation valueType v s.lua s1.lua := by
  induction n with
  | zero =>
      intro below representation valueType v s s1 h
      cases h
  | succ n ih =>
      intro below representation valueType v s s1 h
      cases v with
      | string x => exact scalar_sound (Or.inl rfl) h
      | number d => exact scalar_sound (Or.inr (Or.inl rfl)) h
      | boolean b => exact scalar_sound (Or.inr (Or.inr rfl)) h
      | table t =>
          have hget : getLua.run s = (Except.ok s.lua, s) := rfl
          unfold encodeFieldValue at h
          rw [Computation.run_bind_ok hget] at h
          dsimp only at h
          split at h
          · rename_i htype
            exact object_sound hquiet (type_eq_nil htype) ih h
          · rename_i htype
            exact array_sound (Or.inr (Or.inl htype)) h
          · rename_i htype
            exact array_sound (Or.inl htype) h
          · rename_i htype
            exact array_sound (Or.inr (Or.inr htype)) h
          · exact absurd h not_failWith
      | lightuserdata p => exact lightuserdata_sound hquiet h
      | userdata u =>
          rcases userdata_sound h with ⟨hlua, text, htext⟩
          rw [hlua]
          exact ⟨_, _, ValueReads.userdata htext, encodes_userdata htext⟩
      | nil | function | cfunction | thread => exact absurd h not_failWith

/-!
## Fields
-/

omit hquiet in
/-- The contents of a record start and end in the Lua state of the record. -/
theorem record_of_run {tag : Nat} {contents : Enc Unit}
    (h : (encodeFieldRecord tag contents).run s = (Except.ok (), s1)) :
    exists s2 s3, s2.lua = s.lua ∧ contents.run s2 = (Except.ok (), s3) ∧
      s3.lua = s1.lua := by
  unfold encodeFieldRecord lengthPrefixed at h
  rcases Computation.run_bind_eq_ok h with ⟨_, t1, hkey, h⟩
  rw [Computation.run_bind_ok (run_getPos t1)] at h
  rcases Computation.run_bind_eq_ok h with ⟨_, t2, hkept, h⟩
  rcases Computation.run_bind_eq_ok h with ⟨_, t3, hcontents, hlength⟩
  exact ⟨t2, t3, (write_lua hkept).trans (write_lua hkey), hcontents,
    (write_lua hlength).symm⟩

omit hquiet in
theorem name_of_run {w : Value}
    (h : (encodeName env w).run s = (Except.ok (), s1)) :
    exists name, w.tostring env.fmt = some name ∧ s1.lua = s.lua := by
  unfold encodeName at h
  split at h
  · rename_i name hname
    refine ⟨name, hname, ?_⟩
    exact ((encodes_string s.lua lsbPbName name).lua_of_run rfl h).symm
  · exact absurd h not_failWith

theorem objectRecord_of_run {n : Nat} {e : Value}
    (h : (encodeFieldRecord lsbPbFields (do
        let name <- getfield env e "name"
        encodeName env name
        encodeFieldObject env (encodeFieldValue env n e 1) e)).run s =
      (Except.ok (), s1)) :
    exists w L1 name representation values,
      GetsField env s.lua e "name" w L1 ∧
        w.tostring env.fmt = some name ∧
        ObjectReads env L1 e representation values s1.lua ∧
        Encodes (encodeFieldObject env (encodeFieldValue env n e 1) e) L1
          (valuesPiece representation values) () s1.lua := by
  rcases record_of_run h with ⟨s2, s3, hstart, h, hend⟩
  rcases Computation.run_bind_eq_ok h with ⟨w, t1, hget, h⟩
  rcases Computation.run_bind_eq_ok h with ⟨_, t2, hname, h⟩
  have hgets := getsField_of_run hquiet hget
  rcases name_of_run hname with ⟨name, hstring, hlua⟩
  rcases object_of_run hquiet h with ⟨r, L1, u, L2, v, t3, hr, hu, hv, hvalue⟩
  rcases value_of_run hquiet n hvalue with
    ⟨representation, values, hread, hencode⟩
  rw [hstart] at hgets
  rw [hlua] at hr
  rw [hend] at hread hencode
  exact ⟨w, t1.lua, name, representation, values, hgets, hstring,
    ⟨r, L1, u, L2, v, t3.lua, hr, hu, hv, hread⟩,
    encodes_object hr hu hv hencode⟩

theorem objects_of_run (f n : Nat) :
    forall {i : Int} {e : Value} {s s1 : EncState},
      (encodeFieldObjects env lsbPbFields f n i e).run s =
        (Except.ok (), s1) ->
      exists fields, ObjectsRead env f s.lua i e fields s1.lua ∧
        Encodes (encodeFieldObjects env lsbPbFields f n i e) s.lua
          (Piece.concat (fields.map FieldContent.piece)) () s1.lua := by
  induction n with
  | zero =>
      intro i e s s1 h
      cases h
  | succ n ih =>
      intro i e s s1 h
      unfold encodeFieldObjects at h
      rcases Computation.run_bind_eq_ok h with ⟨_, t, hrecord, h⟩
      rcases objectRecord_of_run hquiet hrecord with
        ⟨w, L1, name, representation, values, hget, hstring, hobject, hencode⟩
      have hpiece := encodes_objectRecord hget hstring hencode
      have hlua : getLua.run t = (Except.ok t.lua, t) := rfl
      rw [Computation.run_bind_ok hlua] at h
      dsimp only at h
      by_cases hnext : t.lua.rawgeti f (i + 1) = Value.nil
      · rw [onlyIf_neg (not_not.mpr hnext)] at h
        cases h
        refine ⟨_, ObjectsRead.last hget hstring hobject hnext, ?_⟩
        unfold encodeFieldObjects
        apply hpiece.seq
        apply (encodes_getLua _).bind_empty
        exact encodes_onlyIf_neg (not_not.mpr hnext)
      · rw [onlyIf_pos hnext] at h
        rcases ih h with ⟨fields, hread, hrest⟩
        refine ⟨_, ObjectsRead.more hget hstring hobject hnext hread, ?_⟩
        unfold encodeFieldObjects
        apply hpiece.seq
        apply (encodes_getLua _).bind_empty
        exact encodes_onlyIf_pos hnext hrest

omit hquiet in
theorem next_of_run {f : Nat} {k : Value} {e : Option (Value × Value)}
    (h : (access (fun L ob => (L.next f k, L, ob))).run s =
      (Except.ok e, s1)) :
    s.lua.next f k = Except.ok e ∧ s1.lua = s.lua := by
  unfold access at h
  rw [Computation.run_ofFun] at h
  dsimp only at h
  split at h
  · rename_i hnext
    cases h
    exact ⟨hnext, rfl⟩
  · cases h

omit hquiet in
/-- What one step of the loop over the entries does when the loop ends. -/
theorem entry_of_run {below : Value} {f n tag : Nat} {k : Value}
    (h : (encodeFieldEntries env tag below f (n + 1) k).run s =
      (Except.ok (), s1)) :
    (s.lua.next f k = Except.ok none ∧ s1.lua = s.lua) ∨
      exists k' v name s2 s3 t,
        s.lua.next f k = Except.ok (some (k', v)) ∧
          k'.tostring env.fmt = some name ∧ s2.lua = s.lua ∧
          (encodeFieldValue env n below 1 none (-1) v).run s2 =
            (Except.ok (), s3) ∧
          t.lua = s3.lua ∧
          (encodeFieldEntries env tag below f n (convertedKey env k')).run t =
            (Except.ok (), s1) := by
  unfold encodeFieldEntries at h
  rcases Computation.run_bind_eq_ok h with ⟨e, t, haccess, h⟩
  rcases next_of_run haccess with ⟨hnext, hlua⟩
  cases e with
  | none =>
      cases h
      exact Or.inl ⟨hnext, hlua⟩
  | some e =>
      rcases e with ⟨k', v⟩
      rcases Computation.run_bind_eq_ok h with ⟨_, t1, hrecord, h⟩
      rcases record_of_run hrecord with ⟨s2, s3, hstart, hvalue, hend⟩
      rcases Computation.run_bind_eq_ok hvalue with ⟨_, t2, hname, hvalue⟩
      rcases name_of_run hname with ⟨name, hstring, hlua'⟩
      exact Or.inr ⟨k', v, name, t2, s3, t1, hnext, hstring,
        hlua'.trans (hstart.trans hlua), hvalue, hend.symm, h⟩

omit hquiet in
theorem encodes_entry {below : Value} {f n : Nat} {k k' v : Value}
    {name : List UInt8} {representation : Option (List UInt8)}
    {values : FieldValues} {L L1 L2 : LuaState} {c : Piece}
    (hnext : L.next f k = Except.ok (some (k', v)))
    (hstring : k'.tostring env.fmt = some name)
    (hvalue : Encodes (encodeFieldValue env n below 1 none (-1) v) L
      (valuesPiece representation values) () L1)
    (hrest : Encodes (encodeFieldEntries env lsbPbFields below f n
      (convertedKey env k')) L1 c () L2) :
    Encodes (encodeFieldEntries env lsbPbFields below f (n + 1) k) L
      (FieldContent.piece ⟨name, representation, values⟩ ++ c) () L2 := by
  unfold encodeFieldEntries
  apply (encodes_next hnext).bind_empty
  exact (encodes_fieldRecord ((encodes_name hstring _).seq hvalue)).seq hrest

omit hquiet in
theorem encodes_noEntry {below : Value} {f n : Nat} {k : Value}
    {L : LuaState} (hnext : L.next f k = Except.ok none) :
    Encodes (encodeFieldEntries env lsbPbFields below f (n + 1) k) L
      Piece.empty () L := by
  unfold encodeFieldEntries
  exact (encodes_next hnext).bind_empty (Encodes.pure () _)

theorem entries_of_run (below : Value) (f n : Nat) :
    forall {k : Value} {s s1 : EncState},
      (encodeFieldEntries env lsbPbFields below f n k).run s =
        (Except.ok (), s1) ->
      exists fields, EntriesRead env below f s.lua k fields s1.lua ∧
        Encodes (encodeFieldEntries env lsbPbFields below f n k) s.lua
          (Piece.concat (fields.map FieldContent.piece)) () s1.lua := by
  induction n with
  | zero =>
      intro k s s1 h
      cases h
  | succ n ih =>
      intro k s s1 h
      rcases entry_of_run h with ⟨hnext, hlua⟩ |
        ⟨k', v, name, s2, s3, t, hnext, hstring, hstart, hvalue, hend, hrest⟩
      · rw [hlua]
        exact ⟨[], EntriesRead.done hnext, encodes_noEntry hnext⟩
      · rcases value_of_run hquiet n hvalue with
          ⟨representation, values, hread, hencode⟩
        rcases ih hrest with ⟨fields, hfields, hencodes⟩
        rw [hstart, ← hend] at hread hencode
        exact ⟨_, EntriesRead.entry hnext hstring hread hfields,
          encodes_entry hnext hstring hencode hencodes⟩

theorem fields_of_run {n : Nat} {below t : Value}
    (h : (encodeFields env n lsbPbFields "Fields" below t).run s =
      (Except.ok (), s1)) :
    exists fields, FieldsRead env below t s.lua fields s1.lua ∧
      Encodes (encodeFields env n lsbPbFields "Fields" below t) s.lua
        (Piece.concat (fields.map FieldContent.piece)) () s1.lua := by
  unfold encodeFields at h
  rcases Computation.run_bind_eq_ok h with ⟨v, t1, hget, h⟩
  have hgets := getsField_of_run hquiet hget
  by_cases htable : v.type = LuaType.table
  · rcases type_eq_table htable with ⟨f, rfl⟩
    have hlua : getLua.run t1 = (Except.ok t1.lua, t1) := rfl
    rw [Computation.run_bind_ok hlua] at h
    dsimp only at h
    split at h
    · rename_i htype
      rcases objects_of_run hquiet f n h with ⟨fields, hread, hencode⟩
      refine ⟨fields, FieldsRead.objects hgets htype hread, ?_⟩
      unfold encodeFields
      apply (encodes_getfield hgets).bind_empty
      apply (encodes_getLua _).bind_empty
      rw [if_pos htype]
      exact hencode
    · rename_i htype
      rcases entries_of_run hquiet below f n h with ⟨fields, hread, hencode⟩
      refine ⟨fields, FieldsRead.entries hgets htype hread, ?_⟩
      unfold encodeFields
      apply (encodes_getfield hgets).bind_empty
      apply (encodes_getLua _).bind_empty
      rw [if_neg htype]
      exact hencode
  · split at h
    · exact absurd rfl htable
    · cases h
      refine ⟨[], FieldsRead.none hgets htable, ?_⟩
      unfold encodeFields
      apply (encodes_getfield hgets).bind_empty
      split
      · exact absurd rfl htable
      · exact Encodes.pure () _

/-!
## Records
-/

theorem optionalString_of_run {tag : Nat} {name : String} {t : Value}
    (h : (encodeString env tag name t).run s = (Except.ok (), s1)) :
    exists x, StringReads env s.lua t name x s1.lua := by
  rcases Computation.run_bind_eq_ok h with ⟨v, t1, hget, _⟩
  have hreads : StringReads env s.lua t name (v.tostring env.fmt) t1.lua :=
    ⟨v, getsField_of_run hquiet hget, rfl⟩
  have hencode := encodes_optionalString hreads tag
  rw [hencode.lua_of_run rfl h] at hreads
  exact ⟨_, hreads⟩

theorem optionalInt_of_run {tag : Nat} {name : String} {t : Value}
    (h : (encodeInt env tag name t).run s = (Except.ok (), s1)) :
    exists x, IntReads env s.lua t name x s1.lua := by
  rcases Computation.run_bind_eq_ok h with ⟨v, t1, hget, _⟩
  have hreads : IntReads env s.lua t name
      ((v.tonumber env.fmt).map (fun d => (d.toUnsigned : Int))) t1.lua :=
    ⟨v, getsField_of_run hquiet hget, rfl⟩
  have hencode := encodes_optionalInt hreads tag
  rw [hencode.lua_of_run rfl h] at hreads
  exact ⟨_, hreads⟩

/-- Records that are encoded were read as those of a message, whatever its
uuid is. -/
theorem records_of_run {n : Nat} {ts : Int} {below t : Value}
    {uuid : List UInt8} (huuid : uuid.length = lsbUuidSize)
    (h : (encodeRecords env n ts below t).run s = (Except.ok (), s1)) :
    exists m : MessageContent, m.uuid = uuid ∧ m.timestamp = ts ∧
      RecordsRead env below t s.lua m s1.lua ∧
      Encodes (encodeRecords env n ts below t) s.lua m.records () s1.lua := by
  unfold encodeRecords at h
  rcases Computation.run_bind_eq_ok h with ⟨⟨⟩, t1, hkey, h⟩
  rcases Computation.run_bind_eq_ok h with ⟨⟨⟩, t2, hvarint, h⟩
  rcases Computation.run_bind_eq_ok h with ⟨⟨⟩, t3, htype, h⟩
  rcases Computation.run_bind_eq_ok h with ⟨⟨⟩, t4, hlogger, h⟩
  rcases Computation.run_bind_eq_ok h with ⟨⟨⟩, t5, hseverity, h⟩
  rcases Computation.run_bind_eq_ok h with ⟨⟨⟩, t6, hpayload, h⟩
  rcases Computation.run_bind_eq_ok h with ⟨⟨⟩, t7, henvVersion, h⟩
  rcases Computation.run_bind_eq_ok h with ⟨⟨⟩, t8, hpid, h⟩
  rcases Computation.run_bind_eq_ok h with ⟨⟨⟩, t9, hhostname, h⟩
  have hstart : t2.lua = s.lua :=
    (write_lua hvarint).trans (write_lua hkey)
  rcases optionalString_of_run hquiet htype with ⟨type, htype⟩
  rcases optionalString_of_run hquiet hlogger with ⟨logger, hlogger⟩
  rcases optionalInt_of_run hquiet hseverity with ⟨severity, hseverity⟩
  rcases optionalString_of_run hquiet hpayload with ⟨payload, hpayload⟩
  rcases optionalString_of_run hquiet henvVersion with
    ⟨envVersion, henvVersion⟩
  rcases optionalInt_of_run hquiet hpid with ⟨pid, hpid⟩
  rcases optionalString_of_run hquiet hhostname with ⟨hostname, hhostname⟩
  rcases fields_of_run hquiet h with ⟨fields, hfields, hencode⟩
  rw [hstart] at htype
  have hheaders : HeadersRead env t s.lua ⟨uuid, ts, type, logger, severity,
      payload, envVersion, pid, hostname, fields, huuid⟩ t9.lua :=
    ⟨t3.lua, t4.lua, t5.lua, t6.lua, t7.lua, t8.lua, htype, hlogger,
      hseverity, hpayload, henvVersion, hpid, hhostname⟩
  have hrecords := encodes_records hheaders hencode
  exact ⟨_, rfl, rfl, ⟨t9.lua, hheaders, hfields⟩, hrecords⟩

theorem sections_of_run {n : Nat} {ts : Int} {below t : Value}
    {uuid : List UInt8} (huuid : uuid.length = lsbUuidSize)
    (h : (encodeSections env n ts below t).run s = (Except.ok (), s1)) :
    exists m : MessageContent, m.uuid = uuid ∧ m.timestamp = ts ∧
      RecordsRead env below t s.lua m s1.lua ∧
      Encodes (encodeSections env n ts below t) s.lua
        (m.records ++ Piece.room 1) () s1.lua := by
  rcases Computation.run_bind_eq_ok h with ⟨_, t1, hrecords, hexpand⟩
  rcases records_of_run hquiet huuid hrecords with
    ⟨m, hm, hts, hread, hencode⟩
  rw [← write_lua hexpand] at hread hencode
  exact ⟨m, hm, hts, hread,
    hencode.seq (encodes_write (emits_expand 1) s1.lua)⟩

/-!
## The prologue
-/

theorem setMissing_of_run {t : Value} {name : String} {value : Option Value}
    (h : (setMissing env t name value).run s = (Except.ok (), s1)) :
    MissingSet env t name s.lua value s1.lua := by
  unfold setMissing at h
  rcases Computation.run_bind_eq_ok h with ⟨v, t1, hget, h⟩
  have hgets := getsField_of_run hquiet hget
  by_cases hnil : v = Value.nil
  · subst hnil
    cases value with
    | some value =>
        exact MissingSet.set hgets (setsField_of_run hquiet h)
    | none =>
        cases h
        exact MissingSet.unknown hgets
  · split at h
    · exact absurd rfl hnil
    · cases h
      exact MissingSet.there hgets hnil

omit hquiet in
theorem attempt_write_lua {x : Writer Unit} {r : Option LsbErr}
    (h : (attempt (write x)).run s = (Except.ok r, s1)) : s1.lua = s.lua := by
  generalize hrun : (write x).run s = y
  have hlua := write_lua hrun
  unfold attempt at h
  rw [Computation.run_ofFun, hrun] at h
  rcases y with ⟨stop | a, t⟩
  · cases stop with
    | err e =>
        cases h
        exact hlua
    | raised v | depth => cases h
  · cases h
    exact hlua

theorem prologue_of_run {cfg : HekaConfig} {t : Value} {ts : Int}
    (h : (encodePrologue env cfg t).run s = (Except.ok ts, s1)) :
    exists uuid, PrologueReads env cfg t s.lua uuid ts s1.lua := by
  have hclear : (write clearBuffer).run s = (Except.ok (), cleared s) := rfl
  unfold encodePrologue at h
  rw [Computation.run_bind_ok hclear] at h
  split at h
  · rename_i hcfg
    rcases Computation.run_bind_eq_ok h with ⟨_, t1, huuid, h⟩
    rcases Computation.run_bind_eq_ok h with ⟨_, t2, hlogger, h⟩
    rcases Computation.run_bind_eq_ok h with ⟨_, t3, hhostname, h⟩
    rcases Computation.run_bind_eq_ok h with ⟨_, t4, hpid, h⟩
    cases h
    have hfirst := setsField_of_run hquiet hlogger
    rw [write_lua huuid] at hfirst
    exact ⟨none, PrologueReads.restricted hcfg hfirst
      (setsField_of_run hquiet hhostname) (setsField_of_run hquiet hpid)⟩
  · rename_i hcfg
    rcases Computation.run_bind_eq_ok h with ⟨u, t1, huuid, h⟩
    rcases Computation.run_bind_eq_ok h with ⟨_, t2, hwrite, h⟩
    rcases Computation.run_bind_eq_ok h with ⟨w, t3, htimestamp, h⟩
    rcases Computation.run_bind_eq_ok h with ⟨_, t4, hheaders, h⟩
    cases h
    unfold setMissingHeaders at hheaders
    rcases Computation.run_bind_eq_ok hheaders with ⟨_, t5, hlogger, hheaders⟩
    rcases Computation.run_bind_eq_ok hheaders with ⟨_, t6, hhostname, hpid⟩
    have htimestamp' := getsField_of_run hquiet htimestamp
    rw [attempt_write_lua hwrite] at htimestamp'
    have hlogger' := setMissing_of_run hquiet hlogger
    have hhostname' := setMissing_of_run hquiet hhostname
    have hpid' := setMissing_of_run hquiet hpid
    have huuid' := getsField_of_run hquiet huuid
    refine ⟨u.tostring env.fmt, ?_⟩
    exact PrologueReads.unrestricted (Bool.eq_false_iff.mpr hcfg) huuid'
      htimestamp' hlogger' hhostname' hpid'

end

end Heka
end LuaSandbox
