import LuaSandbox.Foundation.DoubleInt
import LuaSandbox.Lua.Table

/-!
# Tables under raw equality

The keys of a table are told apart by raw equality: numbers by what they
denote, so that the two zeros are one key and a pattern that is not a number is
none.
-/

namespace LuaSandbox
namespace Lua

open Foundation

/-!
## Raw equality
-/

def rawequal : Value -> Value -> Bool
  | Value.number a, Value.number b => a.value.eq b.value
  | v, w => v = w

section

variable {u v w : Value}

theorem value_eq_comm (a b : Double.Value) : a.eq b = b.eq a := by
  cases a <;> cases b <;> simp only [Double.Value.eq, BEq.comm]

theorem value_eq_iff {a b : Double.Value} :
    a.eq b = true <-> a = b ∧ a ≠ Double.Value.nan := by
  cases a <;> cases b <;> simp [Double.Value.eq]

theorem rawequal_comm (v w : Value) : rawequal v w = rawequal w v := by
  cases v <;> cases w <;> simp [rawequal, value_eq_comm, eq_comm]

theorem rawequal_of_ne_number {v w : Value} (h : v.type ≠ LuaType.number) :
    rawequal v w = true <-> v = w := by
  cases v <;> simp_all [rawequal, Value.type]

theorem rawequal_number {a : Double} {w : Value} :
    rawequal (Value.number a) w = true <->
      exists b : Double, w = Value.number b ∧ a.value = b.value ∧
        a.value ≠ Double.Value.nan := by
  cases w <;> simp [rawequal, value_eq_iff]

theorem rawequal_trans (huv : rawequal u v = true)
    (hvw : rawequal v w = true) : rawequal u w = true := by
  by_cases hnumber : u.type = LuaType.number
  · cases u <;> cases hnumber
    rename_i a
    rcases rawequal_number.mp huv with ⟨b, rfl, hab, ha⟩
    rcases rawequal_number.mp hvw with ⟨c, rfl, hbc, _⟩
    exact rawequal_number.mpr ⟨c, rfl, hab.trans hbc, ha⟩
  · have heq := (rawequal_of_ne_number hnumber).mp huv
    rw [heq]
    exact hvw

end

/-- The keys that a table can have. -/
def IsTableKey (key : Value) : Prop :=
  key ≠ Value.nil ∧ rawequal key key = true

instance (key : Value) : Decidable (IsTableKey key) :=
  inferInstanceAs (Decidable (key ≠ Value.nil ∧ rawequal key key = true))

theorem isTableKey_string (s : List UInt8) :
    IsTableKey (Value.string s) :=
  ⟨nofun, decide_eq_true rfl⟩

/-- The key of `lua_rawseti`, whose index is an `int`. -/
theorem value_integer_toInt (i : Int) :
    (Double.ofInt (toInt i)).value = Double.Value.fin (toInt i) := by
  apply Double.value_ofInt
  have hlow := intMin_le_toInt i
  have hhigh := toInt_le_intMax i
  unfold intMin at hlow
  unfold intMax at hhigh
  omega

theorem isTableKey_integer (i : Int) : IsTableKey (integer (toInt i)) := by
  constructor
  · nofun
  · change Double.Value.eq _ _ = true
    rw [value_integer_toInt]
    exact beq_self_eq_true _

/-- Strings, numbers and booleans. -/
def IsScalar (v : Value) : Prop :=
  v.type = LuaType.string ∨ v.type = LuaType.number ∨
    v.type = LuaType.boolean

theorem not_isScalar_nil : ¬ IsScalar Value.nil := by
  rintro (h | h | h) <;> cases h

theorem not_isScalar_table (u : Nat) : ¬ IsScalar (Value.table u) := by
  rintro (h | h | h) <;> cases h

/-!
## Tables
-/

/-- The value of a key; an entry whose value is nil is not there. -/
def rawlookup : List (Value × Value) -> Value -> Value
  | [], _ => Value.nil
  | (k, v) :: rest, key => if rawequal k key then v else rawlookup rest key

/-- Replace the value of a key that is there, or add the key at the end. -/
def rawassign : List (Value × Value) -> Value -> Value -> List (Value × Value)
  | [], key, value => [(key, value)]
  | (k, v) :: rest, key, value =>
      if rawequal k key then (k, value) :: rest
      else (k, v) :: rawassign rest key value

section

variable {entries : List (Value × Value)} {key value : Value}

theorem rawlookup_rawassign (entries : List (Value × Value))
    (key value k : Value) :
    rawlookup (rawassign entries key value) k =
      if rawequal key k then value else rawlookup entries k := by
  induction entries with
  | nil => rfl
  | cons e rest ih =>
      rcases e with ⟨k', v'⟩
      unfold rawassign
      by_cases hsame : rawequal k' key = true
      · have hiff : rawequal k' k = rawequal key k := by
          rw [Bool.eq_iff_iff]
          constructor
          · intro h
            rw [rawequal_comm] at hsame
            exact rawequal_trans hsame h
          · exact rawequal_trans hsame
        rw [if_pos hsame, rawlookup, rawlookup, hiff]
        by_cases hk : rawequal key k = true
        · rw [if_pos hk, if_pos hk]
        · rw [if_neg hk, if_neg hk, if_neg hk]
      · rw [if_neg hsame, rawlookup, rawlookup, ih]
        by_cases hk : rawequal k' k = true
        · have hne : ¬ rawequal key k = true := by
            intro h
            rw [rawequal_comm] at h
            exact hsame (rawequal_trans hk h)
          rw [if_pos hk, if_pos hk, if_neg hne]
        · rw [if_neg hk, if_neg hk]

/-- The keys that are there stay as they are. -/
theorem mem_rawassign {e : Value × Value}
    (h : e ∈ rawassign entries key value) :
    e.1 = key ∧ e.2 = value ∨
      exists e', e' ∈ entries ∧ e.1 = e'.1 ∧ (e.2 = e'.2 ∨ e.2 = value) := by
  induction entries with
  | nil =>
      rw [List.mem_singleton.mp h]
      exact Or.inl ⟨rfl, rfl⟩
  | cons e' rest ih =>
      rcases e' with ⟨k', v'⟩
      unfold rawassign at h
      split at h
      · rcases List.mem_cons.mp h with rfl | hrest
        · exact Or.inr ⟨(k', v'), List.mem_cons_self, rfl, Or.inr rfl⟩
        · exact Or.inr ⟨e, List.mem_cons_of_mem _ hrest, rfl, Or.inl rfl⟩
      · rcases List.mem_cons.mp h with rfl | hrest
        · exact Or.inr ⟨(k', v'), List.mem_cons_self, rfl, Or.inl rfl⟩
        · rcases ih hrest with hnew | ⟨e', hmem, hsame⟩
          · exact Or.inl hnew
          · exact Or.inr ⟨e', List.mem_cons_of_mem _ hmem, hsame⟩

/-- Keys that are equal have one value. -/
theorem rawlookup_congr {k : Value} (h : rawequal key k = true) :
    rawlookup entries key = rawlookup entries k := by
  induction entries with
  | nil => rfl
  | cons e rest ih =>
      rcases e with ⟨k', v'⟩
      have hsame : rawequal k' key = rawequal k' k := by
        rw [Bool.eq_iff_iff]
        constructor
        · intro hk
          exact rawequal_trans hk h
        · intro hk
          rw [rawequal_comm] at h
          exact rawequal_trans hk h
      rw [rawlookup, rawlookup, hsame, ih]

theorem rawlookup_mem (h : rawlookup entries key ≠ Value.nil) :
    exists k, (k, rawlookup entries key) ∈ entries ∧
      rawequal k key = true := by
  induction entries with
  | nil => exact absurd rfl h
  | cons e rest ih =>
      rcases e with ⟨k', v'⟩
      rw [rawlookup] at h ⊢
      by_cases hk : rawequal k' key = true
      · rw [if_pos hk] at h ⊢
        exact ⟨k', List.mem_cons_self, hk⟩
      · rw [if_neg hk] at h ⊢
        rcases ih h with ⟨k, hmem, hk'⟩
        exact ⟨k, List.mem_cons_of_mem _ hmem, hk'⟩

end

/-- No two entries have one key. -/
def KeysDistinct (entries : List (Value × Value)) : Prop :=
  entries.Pairwise (fun e e' => rawequal e.1 e'.1 = false)

theorem keysDistinct_rawassign {entries : List (Value × Value)}
    {key value : Value} (h : KeysDistinct entries) :
    KeysDistinct (rawassign entries key value) := by
  induction entries with
  | nil => exact List.pairwise_singleton _ _
  | cons e rest ih =>
      rcases e with ⟨k', v'⟩
      rcases List.pairwise_cons.mp h with ⟨hfirst, hrest⟩
      unfold rawassign
      split
      · exact List.pairwise_cons.mpr ⟨hfirst, hrest⟩
      · rename_i hne
        apply List.pairwise_cons.mpr
        constructor
        · intro e he
          rcases mem_rawassign he with ⟨hkey, _⟩ | ⟨e', hmem, hsame, _⟩
          · rw [hkey]
            exact Bool.eq_false_iff.mpr hne
          · rw [hsame]
            exact hfirst e' hmem
        · exact ih hrest

/-- A table by its entries, in the order of their traversal. -/
structure RawTable where
  entries : List (Value × Value)
  keys_distinct : KeysDistinct entries
  keys_valid : forall e, e ∈ entries -> IsTableKey e.1

namespace RawTable

def empty : RawTable where
  entries := []
  keys_distinct := List.Pairwise.nil
  keys_valid := fun _ he => absurd he List.not_mem_nil

def rawget (t : RawTable) (key : Value) : Value := rawlookup t.entries key

def rawset (t : RawTable) (key value : Value) (h : IsTableKey key) :
    RawTable where
  entries := rawassign t.entries key value
  keys_distinct := keysDistinct_rawassign t.keys_distinct
  keys_valid := by
    intro e he
    rcases mem_rawassign he with ⟨hkey, _⟩ | ⟨e', hmem, hsame, _⟩
    · rw [hkey]
      exact h
    · rw [hsame]
      exact t.keys_valid e' hmem

/-- Assign to a key that is a C string. -/
def setfield (t : RawTable) (name : List UInt8) (value : Value) : RawTable :=
  t.rawset (Value.string (name.takeWhile (fun b => b ≠ 0))) value
    (isTableKey_string _)

/-- Assign to a key that is a C integer. -/
def rawseti (t : RawTable) (i : Int) (value : Value) : RawTable :=
  t.rawset (integer (toInt i)) value (isTableKey_integer i)

theorem rawget_rawset (t : RawTable) {key : Value} (value : Value)
    (h : IsTableKey key) (k : Value) :
    (t.rawset key value h).rawget k =
      if rawequal key k then value else t.rawget k :=
  rawlookup_rawassign t.entries key value k

theorem rawget_congr (t : RawTable) {key k : Value}
    (h : rawequal key k = true) : t.rawget key = t.rawget k :=
  rawlookup_congr h

theorem rawget_empty (key : Value) : empty.rawget key = Value.nil :=
  rfl

end RawTable

end Lua
end LuaSandbox
