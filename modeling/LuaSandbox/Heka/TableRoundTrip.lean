import LuaSandbox.Foundation.DoubleInt
import LuaSandbox.Heka.EncodeDecodes
import LuaSandbox.Heka.PackedLength
import LuaSandbox.Heka.PlainFields
import LuaSandbox.Heka.RestrictedHeaders
import LuaSandbox.Util.FieldIndex
import LuaSandbox.Util.UuidText

/-!
# From a table to a message and back

What is read of the message that a plain table is encoded as.
-/

namespace LuaSandbox
namespace Heka

open Foundation
open Lua
open Util
open Core

/-!
## Values
-/

/-- What a Lua value in a field of a value type is read as; an integer is the
integral part of a number. -/
inductive ReadsAs (mem : Memory) : Nat × Value -> ReadValue -> Prop where
  | string {n text s} :
      n <= 1 ->
      s.bytes mem = text ->
      ReadsAs mem (n, Value.string text) (ReadValue.string s)
  | integer {d} :
      ReadsAs mem (2, Value.number d)
        (ReadValue.numeric (Double.ofInt d.toLongLong))
  | double {d} : ReadsAs mem (3, Value.number d) (ReadValue.numeric d)
  | boolean {b} :
      ReadsAs mem (4, Value.boolean b)
        (ReadValue.bool (Double.ofInt (if b then 1 else 0)))

/-- An integer that a number can hold exactly is read as itself. -/
theorem ReadsAs.exact {mem : Memory} {i : Int} {r : ReadValue}
    (h : ReadsAs mem (2, Lua.integer i) r) (hi : i.natAbs <= 2 ^ 53) :
    r = ReadValue.numeric (Double.ofInt i) := by
  cases h with
  | integer => rw [Double.toLongLong_ofInt hi]

section

variable {mem : Memory} {n : Nat} {v : Value}

theorem Admitted.cases (h : Admitted n v) :
    n <= 1 ∧ (exists text, v = Value.string text) ∨
      (n = 2 ∨ n = 3) ∧ (exists d, v = Value.number d) ∨
      n = 4 ∧ exists b, v = Value.boolean b := by
  rcases h with ⟨valueType, htype⟩
  cases v with
  | string text =>
      rcases fieldType_string.mp htype with ⟨_, rfl⟩ | ⟨_, rfl⟩
      · exact Or.inl ⟨Nat.zero_le 1, text, rfl⟩
      · exact Or.inl ⟨Nat.le_refl 1, text, rfl⟩
  | number d =>
      rcases fieldType_number.mp htype with ⟨_, rfl⟩ | ⟨_, rfl⟩
      · exact Or.inr (Or.inl ⟨Or.inr rfl, d, rfl⟩)
      · exact Or.inr (Or.inl ⟨Or.inl rfl, d, rfl⟩)
  | boolean b =>
      rcases fieldType_boolean.mp htype with ⟨_, rfl⟩
      exact Or.inr (Or.inr ⟨rfl, b, rfl⟩)
  | nil | lightuserdata | table | function | cfunction | userdata | thread =>
      cases htype

theorem rel_map {α β γ : Type} {R : α -> γ -> Prop} {o : Option β}
    {f : β -> α} {g : β -> γ} (h : forall b, o = some b -> R (f b) (g b)) :
    Option.Rel R (o.map f) (o.map g) := by
  cases o with
  | none => exact Option.Rel.none
  | some b => exact Option.Rel.some (h b rfl)

theorem readsAs_strings {ss : List ConstString} {values : List Value}
    (hn : n <= 1) (hss : ss.map (fun s => s.bytes mem) = values.map stringOf)
    (hadmitted : forall v, v ∈ values -> Admitted n v) (ai : Nat) :
    Option.Rel (ReadsAs mem) (values[ai]?.map (fun v => (n, v)))
      (ss[ai]?.map ReadValue.string) := by
  have hsame := congrArg (fun xs => xs[ai]?) hss
  rw [List.getElem?_map, List.getElem?_map] at hsame
  cases hv : values[ai]? with
  | none =>
      rw [hv] at hsame
      rw [Option.map_eq_none_iff.mp hsame]
      exact Option.Rel.none
  | some v =>
      rw [hv] at hsame
      rcases Option.map_eq_some_iff.mp hsame with ⟨s, hs, hbytes⟩
      rw [hs]
      rcases (hadmitted v (List.mem_of_getElem? hv)).cases with
        ⟨_, text, rfl⟩ | ⟨hnumber, _⟩ | ⟨hboolean, _⟩
      · exact Option.Rel.some (ReadsAs.string hn hbytes)
      · omega
      · omega

theorem toLongLong_double (d : Double) :
    toLongLong (ofLongLong d.toLongLong) = d.toLongLong := by
  have hrange : -2 ^ 63 <= d.toLongLong ∧ d.toLongLong < 2 ^ 63 := by
    unfold Double.toLongLong
    split
    · split <;> omega
    · omega
  exact toLongLong_ofLongLong hrange.1 hrange.2

/-- The values of a field are read one by one, and none behind them. -/
theorem readsAs_values {vs : WireValues} {values : List Value}
    (h : Carries mem vs (fieldValues n values))
    (hadmitted : forall v, v ∈ values -> Admitted n v) (ai : Nat) :
    Option.Rel (ReadsAs mem) (values[ai]?.map (fun v => (n, v)))
      (vs.read ai) := by
  have hcases := fun v (hv : values[ai]? = some v) =>
    (hadmitted v (List.mem_of_getElem? hv)).cases
  obtain _ | _ | _ | _ | n := n
  · cases h with
    | strings hss => exact readsAs_strings (Nat.zero_le 1) hss hadmitted ai
  · cases h with
    | strings hss => exact readsAs_strings (Nat.le_refl 1) hss hadmitted ai
  · cases h with
    | integers xs =>
        change Option.Rel _ _
          (Option.map _ ((List.map _ (List.map _ _))[ai]?))
        rw [List.getElem?_map, List.getElem?_map, Option.map_map,
          Option.map_map]
        apply rel_map
        intro v hv
        rcases hcases v hv with ⟨hle, _⟩ | ⟨_, d, rfl⟩ | ⟨hfour, _⟩
        · omega
        · change ReadsAs mem (2, Value.number d) (ReadValue.numeric
            (Double.ofInt (toLongLong (ofLongLong d.toLongLong))))
          rw [toLongLong_double]
          exact ReadsAs.integer
        · omega
  · cases h with
    | doubles xs =>
        change Option.Rel _ _ (Option.map _ ((List.map _ _)[ai]?))
        rw [List.getElem?_map, Option.map_map]
        apply rel_map
        intro v hv
        rcases hcases v hv with ⟨hle, _⟩ | ⟨_, d, rfl⟩ | ⟨hfour, _⟩
        · omega
        · exact ReadsAs.double
        · omega
  · cases h with
    | bools xs =>
        change Option.Rel _ _
          (Option.map _ ((List.map _ (List.map _ _))[ai]?))
        rw [List.getElem?_map, List.getElem?_map, Option.map_map,
          Option.map_map]
        apply rel_map
        intro v hv
        rcases hcases v hv with
          ⟨hle, _⟩ | ⟨hthree, _⟩ | ⟨hfour, b, rfl⟩
        · omega
        · omega
        · cases Nat.add_right_cancel (hfour.trans (Nat.zero_add 4).symm)
          cases b
          · exact ReadsAs.boolean
          · exact ReadsAs.boolean

end

/-!
## Fields
-/

/-- The value type and the value at the array index `ai` of the field with the
name `name` that follows `fi` others of that name. -/
def tableValue (fields : List PlainField) (name : List UInt8) (fi ai : Nat) :
    Option (Nat × Value) :=
  (fields.filter (fun f => f.name = name))[fi]?.bind
    (fun f => f.values[ai]?.map (fun v => (f.valueType, v)))

section

variable {mem : Memory} {name : List UInt8} {fi ai : Nat}
  {fields : List PlainField}

theorem nameMatches_eq {hf : HekaField} {c : FieldContent}
    (h : HoldsField mem hf c) (hnul : 0 ∉ name) :
    nameMatches mem name hf = decide (c.name = name) := by
  have hlength := h.name.length
  have hbytes := h.name.2
  by_cases hname : c.name = name
  · rw [decide_eq_true hname]
    apply nameMatches_of_isNamed
    rw [hname] at hlength hbytes
    exact decide_eq_true ⟨hlength, hbytes⟩
  · rw [decide_eq_false hname, Bool.eq_false_iff]
    intro hmatches
    unfold nameMatches at hmatches
    rw [Bool.and_eq_true, decide_eq_true_eq, decide_eq_true_eq, hbytes,
      hlength] at hmatches
    apply hname
    apply strncmp_eq_zero hnul hmatches.1.symm
    rw [hmatches.1]
    exact hmatches.2

theorem readHekaFieldLoop_said {hfs : List HekaField}
    (h : List.Forall₂ (fun hf f => HoldsField mem hf f.content) hfs fields)
    (hadmitted : forall f, f ∈ fields -> forall v, v ∈ f.values ->
      Admitted f.valueType v) (hnul : 0 ∉ name) (hai : (ai : Int) < intMax) :
    forall {fcnt : Nat}, fcnt <= fi ->
      Option.Rel (ReadsAs mem) (tableValue fields name (fi - fcnt) ai)
        (readHekaFieldLoop mem name fi ai fcnt hfs) := by
  induction h with
  | nil =>
      intro fcnt _
      exact Option.Rel.none
  | cons hfield hothers ih =>
      rename_i hf f hfs fields
      intro fcnt hle
      have hrest := fun g hg => hadmitted g (List.mem_cons_of_mem f hg)
      have hmatches := nameMatches_eq hfield hnul
      unfold tableValue readHekaFieldLoop
      rw [List.filter_cons, hmatches]
      by_cases hname : f.name = name
      · have hname' : f.content.name = name := hname
        rw [decide_eq_true hname', decide_eq_true hname]
        rw [if_pos rfl, if_pos rfl]
        by_cases hfi : fi = fcnt
        · subst hfi
          rcases hfield.values with ⟨vs, hslice, hcarries⟩
          have htyped : vs.Typed hf.valueType := by
            rw [hfield.valueType]
            exact hcarries.typed
          rw [if_pos rfl, readFieldValue_eq hslice htyped hai, Nat.sub_self]
          exact readsAs_values hcarries
            (hadmitted f List.mem_cons_self) ai
        · rw [if_neg hfi, getElem?_after f _ hle hfi]
          exact ih hrest (by omega)
      · have hname' : ¬ f.content.name = name := hname
        rw [decide_eq_false hname', decide_eq_false hname]
        exact ih hrest hle

end

/-!
## Headers
-/

theorem headerInt_integer (env : EncodeEnv) {i : Int} (hlow : 0 <= i)
    (hhigh : i <= intMax) (j : Int) :
    readInt j (headerInt env (Lua.integer i)) = i := by
  have hmax : intMax = 2147483647 := rfl
  have hmin : intMin = -2147483648 := rfl
  have hword : (Double.ofInt i).toUnsigned = ofLongLong i :=
    Double.toUnsigned_ofInt (by omega)
  have hsame : ((ofLongLong i : Nat) : Int) = i := by
    unfold ofLongLong
    omega
  change toInt (toLongLong (ofLongLong
    ((Double.ofInt i).toUnsigned : Int))) = i
  rw [hword, hsame, toLongLong_ofLongLong (by omega) (by omega)]
  exact toInt_of_range (by omega) hhigh

/-- The decoded message says what the table says. -/
structure RoundTrip (env : EncodeEnv) (cfg : HekaConfig) (L : LuaState)
    (a : Nat) (fields : List PlainField) (mem : Memory) (hm : HekaMessage) :
    Prop where
  content : HoldsMessage mem hm
    (tableContent env cfg L a (fields.map PlainField.content))
  uuid : cfg.restrictedHeaders = false -> forall u, u.length = lsbUuidSize ->
    fieldOf L a "Uuid" = Value.string u ∨
      fieldOf L a "Uuid" = Value.string (uuidText u) ->
    hm.uuid.bytes mem = u
  timestamp : cfg.restrictedHeaders = false -> forall i, i.natAbs <= 2 ^ 53 ->
    fieldOf L a "Timestamp" = Lua.integer i -> hm.timestamp = i
  severity : forall i, 0 <= i -> i <= intMax ->
    fieldOf L a "Severity" = Lua.integer i -> hm.severity = i
  pid : forall i, 0 <= i -> i <= intMax ->
    headerValue cfg (fieldOf L a "Pid") (Lua.integer cfg.pid) =
      Lua.integer i -> hm.pid = i
  values : forall name, 0 ∉ name -> forall fi ai : Nat, (ai : Int) < intMax ->
    Option.Rel (ReadsAs mem) (tableValue fields name fi ai)
      (lsbReadHekaField mem hm name fi ai)

section

variable {env : EncodeEnv} {cfg : HekaConfig} {L : LuaState} {a : Nat}
  {fields : List PlainField} {mem : Memory} {hm : HekaMessage}

theorem wantedUuid_of_field (hcfg : cfg.restrictedHeaders = false)
    {text : List UInt8} (h : fieldOf L a "Uuid" = Value.string text) :
    wantedUuid env cfg L a = some text := by
  unfold wantedUuid
  rw [hcfg, h]
  rfl

theorem wantedTimestamp_of_field (hcfg : cfg.restrictedHeaders = false)
    {i : Int} (hi : i.natAbs <= 2 ^ 53)
    (h : fieldOf L a "Timestamp" = Lua.integer i) :
    wantedTimestamp env cfg L a = i := by
  unfold wantedTimestamp
  rw [hcfg, h]
  exact Double.toLongLong_ofInt hi

theorem roundTrip_of_holds (hsaid : FieldsSay env (prepared cfg L a) a fields)
    (h : HoldsMessage mem hm
      (tableContent env cfg L a (fields.map PlainField.content))) :
    RoundTrip env cfg L a fields mem hm where
  content := h
  uuid := by
    intro hcfg u hlength huuid
    have hbytes : hm.uuid.bytes mem =
        uuidBytes env.random (wantedUuid env cfg L a) := h.uuid.2
    rw [hbytes]
    rcases huuid with hraw | htext
    · rw [wantedUuid_of_field hcfg hraw]
      exact uuidBytes_raw env.random hlength
    · rw [wantedUuid_of_field hcfg htext]
      exact uuidBytes_text env.random hlength
  timestamp := by
    intro hcfg i hi htimestamp
    have hstamp : hm.timestamp =
        toLongLong (ofLongLong (wantedTimestamp env cfg L a)) := h.timestamp
    rw [hstamp, wantedTimestamp_of_field hcfg hi htimestamp]
    exact toLongLong_ofLongLong (by omega) (by omega)
  severity := by
    intro i hlow hhigh hseverity
    have hread : hm.severity =
        readInt 7 (headerInt env (fieldOf L a "Severity")) := h.severity
    rw [hread, hseverity]
    exact headerInt_integer env hlow hhigh 7
  pid := by
    intro i hlow hhigh hpid
    have hread : hm.pid = readInt intMin (headerInt env (headerValue cfg
        (fieldOf L a "Pid") (Lua.integer cfg.pid))) := h.pid
    rw [hread, hpid]
    exact headerInt_integer env hlow hhigh intMin
  values := by
    intro name hnul fi ai hai
    have hfields : List.Forall₂
        (fun hf f => HoldsField mem hf (PlainField.content f)) hm.fields
          fields :=
      List.forall₂_map_right_iff.mp h.fields
    exact readHekaFieldLoop_said hfields hsaid.admitted hnul hai
      (Nat.zero_le fi)

end

/-!
A message with one field, whose values are -1 and 0.
-/

def pairFields : LuaState where
  tables a :=
    if a = 0 then LuaTable.empty.setString (ascii "Fields") (Value.table 1)
    else if a = 1 then LuaTable.empty.setString (ascii "a") (Value.table 2)
    else pairTable
  metatable _ := none

def pairConfig : HekaConfig := ⟨none, none, 1, false, pid_range_one⟩

def pairField : PlainField :=
  ⟨ascii "a", none, 3, [Lua.integer (-1), Lua.integer 0]⟩

theorem pairFields_say :
    FieldsSay sampleEnv (prepared pairConfig pairFields 0) 0 [pairField] := by
  have harray : ArrayOf (prepared pairConfig pairFields 0) 2
      [Lua.integer (-1), Lua.integer 0] := by
    refine ⟨rfl, ?_⟩
    decide +kernel
  have hvalue : ValueSays sampleEnv (prepared pairConfig pairFields 0) none
      (-1) (Value.table 2) none 3 [Lua.integer (-1), Lua.integer 0] :=
    ValueSays.array harray rfl (by decide)
  have hentries : live ((prepared pairConfig pairFields 0).tables 1).entries =
      [(Value.string (ascii "a"), Value.table 2)] := by
    decide +kernel
  have htype : ((prepared pairConfig pairFields 0).rawgeti 1 1).type ≠
      LuaType.table := by
    decide +kernel
  refine FieldsSay.entries (t := 1) (by decide +kernel) htype ?_
  rw [hentries]
  exact List.Forall₂.cons ⟨rfl, hvalue⟩ List.Forall₂.nil

end Heka
end LuaSandbox
