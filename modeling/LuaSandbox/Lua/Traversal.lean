import LuaSandbox.Lua.Table

/-!
# Traversals

The loops over the entries of a table that hand each key back to `lua_next`,
as it is or converted.
-/

namespace LuaSandbox
namespace Lua

open Foundation

/-- The entries that are there. -/
def live (entries : List (Value × Value)) : List (Value × Value) :=
  entries.filter (fun e => e.2 ≠ Value.nil)

namespace LuaTable

/-- The entries behind `key` that a loop visits; there may be an error, or no
end. -/
def traverse (t : LuaTable) (convert : Value -> Value) :
    Nat -> Value -> Option (List (Value × Value))
  | 0, _ => none
  | n + 1, key =>
      match t.next key with
      | none => none
      | some none => some []
      | some (some (k, v)) =>
          (traverse t convert n (convert k)).map (fun rest => (k, v) :: rest)

/-- The entry that follows is the same behind a key and behind what the key is
converted to. -/
def Undisturbed (t : LuaTable) (convert : Value -> Value) : Prop :=
  forall e, e ∈ live t.entries -> t.next (convert e.1) = t.next e.1

instance (t : LuaTable) (convert : Value -> Value) :
    Decidable (t.Undisturbed convert) :=
  inferInstanceAs (Decidable (forall e, e ∈ live t.entries ->
    t.next (convert e.1) = t.next e.1))

section

variable {entries rest : List (Value × Value)} {k v : Value}

theorem firstEntry_none (h : firstEntry entries = none) :
    live entries = [] := by
  induction entries with
  | nil => rfl
  | cons e entries ih =>
      rcases e with ⟨k', v'⟩
      unfold firstEntry at h
      split at h
      · rename_i hnil
        unfold live
        rw [List.filter_cons_of_neg (by simp [hnil])]
        exact ih h
      · cases h

/-- Only dead entries are in front of the first one. -/
theorem firstEntry_some (h : firstEntry entries = some (k, v)) :
    exists before rest, entries = before ++ (k, v) :: rest ∧
      live entries = (k, v) :: live rest := by
  induction entries with
  | nil => cases h
  | cons e entries ih =>
      rcases e with ⟨k', v'⟩
      unfold firstEntry at h
      split at h
      · rename_i hnil
        rcases ih h with ⟨before, rest, rfl, hlive⟩
        refine ⟨(k', v') :: before, rest, rfl, ?_⟩
        unfold live at hlive ⊢
        rw [List.filter_cons_of_neg (by simp [hnil]), hlive]
      · rename_i hne
        cases h
        refine ⟨[], entries, rfl, ?_⟩
        unfold live
        rw [List.filter_cons_of_pos (by simp [hne])]

theorem firstEntry_eq (entries : List (Value × Value)) :
    firstEntry entries = (live entries).head? := by
  cases hfirst : firstEntry entries with
  | none => rw [firstEntry_none hfirst, List.head?_nil]
  | some e =>
      rcases firstEntry_some hfirst with ⟨before, rest, _, hlive⟩
      rw [hlive, List.head?_cons]

theorem behind_append {before : List (Value × Value)}
    (hnodup : ((before ++ (k, v) :: rest).map Prod.fst).Nodup) :
    behind (before ++ (k, v) :: rest) k = some rest := by
  induction before with
  | nil => exact if_pos rfl
  | cons e before ih =>
      rcases e with ⟨k', v'⟩
      rw [List.cons_append, List.map_cons, List.nodup_cons] at hnodup
      have hne : k' ≠ k := by
        rintro rfl
        apply hnodup.1
        rw [List.map_append, List.map_cons]
        exact List.mem_append_right _ List.mem_cons_self
      rw [List.cons_append, behind, if_neg hne]
      exact ih hnodup.2

end

section

variable {t : LuaTable} {convert : Value -> Value} {n : Nat} {key : Value}
  {rest visited : List (Value × Value)}

/-- What a loop visits is decided by the first entry. -/
theorem traverse_congr {key' : Value} (h : t.next key = t.next key') :
    t.traverse convert n key = t.traverse convert n key' := by
  cases n with
  | zero => rfl
  | succ n =>
      unfold traverse
      rw [h]

theorem next_of_traverse (h : t.traverse convert n key = some visited) :
    t.next key = some visited.head? := by
  cases n with
  | zero => cases h
  | succ n =>
      unfold traverse at h
      split at h
      · cases h
      · rename_i hnext
        cases h
        exact hnext
      · rename_i hnext
        rcases Option.map_eq_some_iff.mp h with ⟨visited', _, rfl⟩
        exact hnext

/-- The entries behind a key of the table or, for nil, all of them. -/
def IsBehind (t : LuaTable) (key : Value) (rest : List (Value × Value)) :
    Prop :=
  t.next key = some (firstEntry rest) ∧
    exists before, t.entries = before ++ rest

theorem isBehind_nil (t : LuaTable) : t.IsBehind Value.nil t.entries :=
  ⟨if_pos rfl, [], rfl⟩

/-- The step: the first entry has the others behind it. -/
theorem IsBehind.step {k v : Value} (h : t.IsBehind key rest)
    (hfirst : firstEntry rest = some (k, v)) :
    exists rest', t.IsBehind k rest' ∧ live rest = (k, v) :: live rest' := by
  rcases h with ⟨_, before, hentries⟩
  rcases firstEntry_some hfirst with ⟨before', rest', rfl, hlive⟩
  rw [← List.append_assoc] at hentries
  have hnodup := t.keys_nodup
  rw [hentries] at hnodup
  have hnil : k ≠ Value.nil := by
    rintro rfl
    apply t.nil_not_key
    rw [hentries, List.map_append, List.map_cons]
    exact List.mem_append_right _ List.mem_cons_self
  refine ⟨rest', ⟨?_, before ++ before' ++ [(k, v)], ?_⟩, hlive⟩
  · unfold next
    rw [if_neg hnil, hentries, behind_append hnodup]
    rfl
  · rw [hentries, List.append_assoc _ [(k, v)]]
    rfl

/-- A loop visits the entries that are behind its key, in their order, if and
only if no conversion of their keys changes what follows. -/
theorem traverse_eq_live_iff_behind : forall {n : Nat} {key : Value}
    {rest visited : List (Value × Value)}, t.IsBehind key rest ->
      t.traverse convert n key = some visited ->
      (visited = live rest <->
        forall e, e ∈ live rest -> t.next (convert e.1) = t.next e.1) := by
  intro n
  induction n with
  | zero =>
      intro key rest visited _ h
      cases h
  | succ n ih =>
      intro key rest visited hbehind h
      unfold traverse at h
      rw [hbehind.1] at h
      cases hfirst : firstEntry rest with
      | none =>
          rw [hfirst] at h
          cases h
          rw [firstEntry_none hfirst]
          exact iff_of_true rfl (fun e he => absurd he List.not_mem_nil)
      | some e =>
          rcases e with ⟨k, v⟩
          rw [hfirst] at h
          rcases Option.map_eq_some_iff.mp h with ⟨visited', hrest, rfl⟩
          rcases hbehind.step hfirst with ⟨rest', hbehind', hlive⟩
          rw [hlive, List.cons_inj_right, List.forall_mem_cons]
          constructor
          · rintro rfl
            have hnext : t.next (convert k) = t.next k := by
              rw [next_of_traverse hrest, hbehind'.1, firstEntry_eq]
            rw [traverse_congr hnext] at hrest
            exact ⟨hnext, (ih hbehind' hrest).mp rfl⟩
          · rintro ⟨hnext, hall⟩
            rw [traverse_congr hnext] at hrest
            exact (ih hbehind' hrest).mpr hall

/-- A loop over a whole table visits every entry once, in the order of the
table, if and only if the conversions do not disturb it. -/
theorem traverse_eq_live_iff
    (h : t.traverse convert n Value.nil = some visited) :
    visited = live t.entries <-> t.Undisturbed convert :=
  traverse_eq_live_iff_behind t.isBehind_nil h

end

end LuaTable

end Lua
end LuaSandbox
