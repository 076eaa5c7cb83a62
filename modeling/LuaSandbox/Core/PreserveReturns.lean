import LuaSandbox.Core.PreserveOrder
import Mathlib.Data.Finset.Card

/-!
# When the state is preserved

The pass comes to an end on every graph of tables, whatever cycles it has: it
enters no table twice.
-/

namespace LuaSandbox
namespace Core

open Foundation Lua

/-- The tables whose entries are written. -/
inductive Reached (g : LuaGlobals) : Nat -> Prop where
  | globals : Reached g g.globals
  | inside {t u : Nat} {key : Value} (h : Reached g t)
      (he : (key, Value.table u) ∈ g.entriesOf t)
      (hkept : g.ignoreValueType (Value.table u) = false)
      (hfull : g.isEmptyArray u = false) : Reached g u

/-- Every value that is preserved has a key that can be written. -/
def Preservable (g : LuaGlobals) : Prop :=
  forall t, Reached g t -> forall e, e ∈ g.entriesOf t ->
    g.ignoreValueType e.2 = false -> IsScalar e.1

section

variable {g : LuaGlobals} {trace : List Visit}

theorem IsWalk.reached {t : Nat} (h : IsWalk g trace) (ht : Reached g t) :
    Expanded g trace t := by
  induction ht with
  | globals => exact Or.inl rfl
  | inside _ he hkept hfull ih =>
      rcases h.complete _ ih _ he hkept with ⟨s, hs, _, _, hvalue⟩
      exact Or.inr ⟨hfull, h.ordered.opened hs hvalue⟩

theorem IsWalk.preservable (h : IsWalk g trace) : Preservable g := by
  intro t ht e he hkept
  rcases h.complete t (h.reached ht) e he hkept with ⟨s, hs, _, hkey, _⟩
  rcases h.ordered.inOrder hs with ⟨_, _, _, hin⟩
  rw [← hkey]
  exact hin.key

/-!
## Room for the walk
-/

/-- How many of the tables are not opened. -/
def remaining (g : LuaGlobals) (ts : Finset Nat) (trace : List Visit) : Nat :=
  (ts.filter (fun t => t ≠ g.globals ∧
    forall s, s ∈ trace -> ¬ s.Opens (Value.table t))).card

theorem remaining_mono {ts : Finset Nat} {trace' : List Visit}
    (hsub : trace <+: trace') :
    remaining g ts trace' <= remaining g ts trace := by
  apply Finset.card_le_card
  apply Finset.monotone_filter_right
  rintro t _ ⟨hne, hnone⟩
  exact ⟨hne, fun s hs => hnone s (hsub.subset hs)⟩

/-- To open a table leaves one less. -/
theorem remaining_opens {ts : Finset Nat} {s : Visit} {u : Nat}
    (hu : u ∈ ts) (hne : u ≠ g.globals)
    (hnew : findVisit trace (Value.table u) = none)
    (hopens : s.Opens (Value.table u)) :
    remaining g ts (trace ++ [s]) + 1 <= remaining g ts trace := by
  apply Finset.card_lt_card
  apply Finset.ssubset_iff_of_subset
    (Finset.monotone_filter_right _ _) |>.mpr
  · refine ⟨u, Finset.mem_filter.mpr ⟨hu, hne, findVisit_none.mp hnew⟩, ?_⟩
    intro hmem
    exact (Finset.mem_filter.mp hmem).2.2 s
      (List.mem_append_right _ (List.mem_singleton_self s)) hopens
  · rintro t _ ⟨hne', hnone⟩
    exact ⟨hne', fun s' hs' => hnone s' (List.mem_append_left _ hs')⟩

theorem checkData_of_isScalar {slots : Nat} {v : Value} (h : IsScalar v)
    (hslots : 4 <= slots) : checkData slots v = Except.ok () := by
  cases v with
  | string s => exact if_neg (Nat.not_lt.mpr hslots)
  | number d => rfl
  | boolean b => rfl
  | _ => rcases h with h | h | h <;> cases h

/-- The step: with room for the tables that are not opened, an entry is
written. -/
theorem visitEntry_returns {ts : Finset Nat}
    {visit : Nat -> List Value -> List Visit ->
      Except PreserveStop (List Visit)} {slots t : Nat} {path : List Value}
    {e : Value × Value}
    (hreached : forall u, Reached g u -> u ∈ ts)
    (hvisit : forall u path trace, Reached g u ->
      2 * remaining g ts trace + 6 <= slots ->
      exists trace', visit u path trace = Except.ok trace' ∧
        trace <+: trace')
    (ht : Reached g t) (he : e ∈ g.entriesOf t)
    (hkey : g.ignoreValueType e.2 = false -> IsScalar e.1)
    (hroom : 2 * remaining g ts trace + 4 <= slots) :
    exists trace', visitEntry g visit slots t path trace e =
      Except.ok trace' ∧ trace <+: trace' := by
  rcases e with ⟨k, v⟩
  unfold visitEntry
  by_cases hignore : g.ignoreValueType v = true
  · rw [if_pos hignore]
    exact ⟨trace, rfl, List.prefix_refl _⟩
  have hkept := Bool.eq_false_iff.mpr hignore
  have hslots : 4 <= slots := by omega
  rw [if_neg hignore, checkData_of_isScalar (hkey hkept) hslots,
    except_ok_bind]
  have hscalar : IsScalar v -> exists trace', (do
      checkData slots v
      Except.ok (trace ++ [⟨t, path, k, v, none⟩])) = Except.ok trace' ∧
        trace <+: trace' := by
    intro hv
    rw [checkData_of_isScalar hv hslots]
    exact ⟨_, rfl, List.prefix_append _ _⟩
  cases v with
  | table u =>
      dsimp only
      cases hfind : findVisit trace (Value.table u) with
      | some q => exact ⟨_, rfl, List.prefix_append _ _⟩
      | none =>
          dsimp only
          by_cases hempty : g.isEmptyArray u = true
          · rw [if_pos hempty]
            exact ⟨_, rfl, List.prefix_append _ _⟩
          · rw [if_neg hempty]
            have hu := Reached.inside ht he hkept
              (Bool.eq_false_iff.mpr hempty)
            have hless := @remaining_opens g trace ts
              ⟨t, path, k, Value.table u, none⟩ u (hreached u hu)
              (ne_globals hkept) hfind ⟨rfl, rfl⟩
            have hroom' : 2 * remaining g ts
                (trace ++ [⟨t, path, k, Value.table u, none⟩]) + 6 <=
                  slots := by
              omega
            rcases hvisit u (path ++ [k]) _ hu hroom' with
              ⟨trace', hrun, hprefix⟩
            exact ⟨trace', hrun, (List.prefix_append _ _).trans hprefix⟩
  | userdata u => exact ⟨_, rfl, List.prefix_append _ _⟩
  | string x => exact hscalar (Or.inl rfl)
  | number d => exact hscalar (Or.inr (Or.inl rfl))
  | boolean b => exact hscalar (Or.inr (Or.inr rfl))
  | _ => exact absurd rfl hignore

theorem visitTable_returns {ts : Finset Nat}
    (hreached : forall u, Reached g u -> u ∈ ts) (hkeys : Preservable g)
    (slots : Nat) :
    forall t path trace, Reached g t ->
      2 * remaining g ts trace + 6 <= slots ->
      exists trace', visitTable g slots t path trace = Except.ok trace' ∧
        trace <+: trace' := by
  induction slots using Nat.twoStepInduction with
  | zero =>
      intro t path trace _ hroom
      omega
  | one =>
      intro t path trace _ hroom
      omega
  | more slots ih _ =>
      intro t path trace ht hroom
      unfold visitTable
      apply foldlM_succeeds _ (List.prefix_refl trace)
      intro e trace₁ he hprefix
      have hless : remaining g ts trace₁ <= remaining g ts trace :=
        remaining_mono hprefix
      have hroom' : 2 * remaining g ts trace₁ + 4 <= slots := by
        omega
      have hturn : exists trace₂,
          visitEntry g (visitTable g slots) slots t path trace₁ e =
            Except.ok trace₂ ∧ trace₁ <+: trace₂ :=
        visitEntry_returns hreached ih ht he (hkeys t ht e he) hroom'
      rcases hturn with ⟨trace₂, hrun, hprefix'⟩
      exact ⟨trace₂, hrun, hprefix.trans hprefix'⟩

end

theorem entriesOf_cyclicGlobals {t : Nat} {e : Value × Value}
    (he : e ∈ cyclicGlobals.entriesOf t) :
    exists k, e = (Value.string k, Value.table 1) ∧ k ≠ ascii "_G" := by
  have hcases : e ∈ [(Value.string (ascii "a"), Value.table 1),
      (Value.string (ascii "b"), Value.table 1)] ∨
      e ∈ [(Value.string (ascii "self"), Value.table 1)] := by
    by_cases ht : t = 0
    · rw [ht] at he
      exact Or.inl he
    · have hentries : cyclicGlobals.entriesOf t =
          live (cyclicGlobals.tables t).entries := if_neg ht
      have htable : cyclicGlobals.tables t =
          RawTable.empty.setfield (ascii "self") (Value.table 1) := if_neg ht
      rw [hentries, htable] at he
      exact Or.inr he
  rcases hcases with he | he
  · rcases List.mem_cons.mp he with rfl | he
    · exact ⟨_, rfl, by decide⟩
    · rw [List.mem_singleton.mp he]
      exact ⟨_, rfl, by decide⟩
  · rw [List.mem_singleton.mp he]
    exact ⟨_, rfl, by decide⟩

theorem reached_cyclicGlobals {t : Nat} (h : Reached cyclicGlobals t) :
    t ∈ ({0, 1} : Finset Nat) := by
  cases h with
  | globals => exact Finset.mem_insert_self 0 {1}
  | inside _ he _ _ =>
      rcases entriesOf_cyclicGlobals he with ⟨k, heq, _⟩
      cases heq
      exact Finset.mem_insert_of_mem (Finset.mem_singleton_self 1)

end Core
end LuaSandbox
